import Mathlib.Data.String.Basic
import Stencil.Proofs.Coverage

/-! Where tokens are. The spans of the tokens of a source say where each of them stands in it, in
bytes, and nothing but what is hidden is left outside. -/

namespace Stencil.Markup

open String (utf8Len)

theorem Position.offset_after (p : Position) (cs : List Char) :
    (p.after cs).offset = p.offset + utf8Len cs := by
  induction cs generalizing p with
  | nil => rfl
  | cons c cs ih =>
    have hn : (p.next c).offset = p.offset + c.utf8Size := by
      unfold Position.next
      split <;> rfl
    have ha : p.after (c :: cs) = (p.next c).after cs := rfl
    rw [ha, ih, hn, String.utf8Len_cons]
    omega

theorem Position.offset_start_after (cs : List Char) :
    (Position.start.after cs).offset = utf8Len cs := by
  rw [offset_after]
  exact Nat.zero_add _

namespace Token

variable {before rest : List Char} {ts : List (Token × Span)}

/-- The bytes up to the end of the last token, or up to where none stands yet. -/
def endOffset (offset : Nat) (ts : List (Token × Span)) : Nat :=
  (ts.getLast?.map (·.2.last.offset)).getD offset

/-- The bytes up to the start of the first token, or up to where the source ends. -/
def startOffset (offset : Nat) (ts : List (Token × Span)) : Nat :=
  (ts.head?.map (·.2.first.offset)).getD offset

theorem endOffset_cons (offset : Nat) (t : Token × Span) (ts : List (Token × Span)) :
    endOffset offset (t :: ts) = endOffset t.2.last.offset ts := by
  cases ts <;> rfl

/-- Tokens are exactly those of a source: their spans have bytes, come one after the other, and hold
what the tokens were read from; what stands between two of them, or before the first or behind the
last, is hidden. -/
structure Exact (source : List Char) (ts : List (Token × Span)) : Prop where
  nonempty : ∀ t ∈ ts, t.2.first.offset < t.2.last.offset
  ordered : ts.Pairwise fun t u => t.2.last.offset ≤ u.2.first.offset
  stands : ∀ t ∈ ts, ∃ before cs behind, source = before ++ (cs ++ behind) ∧
    t.2.first.offset = utf8Len before ∧ t.2.last.offset = utf8Len (before ++ cs) ∧
    t.1.Stands before cs behind
  gaps : ∀ front back, ts = front ++ back → ∃ before gap behind,
    source = before ++ (gap ++ behind) ∧ utf8Len before = endOffset 0 front ∧
    utf8Len (before ++ gap) = startOffset (utf8Len source) back ∧ Hidden before gap behind

namespace Covers

theorem le_first (h : Covers before rest ts) : ∀ t ∈ ts, utf8Len before ≤ t.2.first.offset := by
  induction h with
  | done => simp
  | token _ _ _ _ ih =>
    intro t ht
    rcases List.mem_cons.1 ht with rfl | ht
    · simp only [Position.offset_start_after, String.utf8Len_append]
      omega
    · have := ih t ht
      simp only [String.utf8Len_append] at this
      omega

theorem first_lt_last (h : Covers before rest ts) :
    ∀ t ∈ ts, t.2.first.offset < t.2.last.offset := by
  induction h with
  | done => simp
  | token _ hn _ _ ih =>
    refine List.forall_mem_cons.2 ⟨?_, ih⟩
    have := Nat.pos_of_ne_zero (mt String.utf8Len_eq_zero.1 hn)
    simp only [Position.offset_start_after, String.utf8Len_append]
    omega

theorem pairwise (h : Covers before rest ts) :
    ts.Pairwise fun t u => t.2.last.offset ≤ u.2.first.offset := by
  induction h with
  | done => exact .nil
  | token _ _ _ hr ih =>
    refine .cons (fun t ht => ?_) ih
    rw [Position.offset_start_after]
    exact hr.le_first t ht

theorem exists_span (h : Covers before rest ts) : ∀ t ∈ ts, ∃ front cs behind,
    before ++ rest = front ++ (cs ++ behind) ∧
      t.2 = ⟨Position.start.after front, Position.start.after (front ++ cs)⟩ ∧
      t.1.Stands front cs behind := by
  induction h with
  | done => simp
  | token _ _ hs _ ih =>
    refine List.forall_mem_cons.2 ⟨⟨_, _, _, ?_, rfl, hs⟩, ?_⟩
    · rw [List.append_assoc]
    · simpa only [List.append_assoc] using ih

theorem exists_stands (h : Covers before rest ts) : ∀ t ∈ ts, ∃ front cs behind,
    before ++ rest = front ++ (cs ++ behind) ∧ t.2.first.offset = utf8Len front ∧
      t.2.last.offset = utf8Len (front ++ cs) ∧ t.1.Stands front cs behind := by
  intro t ht
  obtain ⟨front, cs, behind, he, hp, hs⟩ := h.exists_span t ht
  have ho := Position.offset_start_after
  exact ⟨front, cs, behind, he, by rw [hp, ho], by rw [hp, ho], hs⟩

theorem exists_hidden (h : Covers before rest ts) : ∀ front back, ts = front ++ back →
    ∃ pre gap behind, before ++ rest = pre ++ (gap ++ behind) ∧
      utf8Len pre = endOffset (utf8Len before) front ∧
      utf8Len (pre ++ gap) = startOffset (utf8Len (before ++ rest)) back ∧
      Hidden pre gap behind := by
  induction h with
  | @done before gap hg =>
    intro front back he
    obtain ⟨rfl, rfl⟩ := List.append_eq_nil_iff.1 he.symm
    exact ⟨before, gap, [], by simp, rfl, rfl, hg⟩
  | @token before gap cs behind t ts hg _ _ _ ih =>
    intro front back he
    cases front with
    | nil =>
      -- the stretch before the first token
      subst he
      exact ⟨before, gap, cs ++ behind, rfl, rfl, (Position.offset_start_after _).symm, hg⟩
    | cons u front =>
      obtain ⟨rfl, rfl⟩ := List.cons.inj he
      obtain ⟨pre, gap', behind', h1, h2, h3, h4⟩ := ih front back rfl
      refine ⟨pre, gap', behind', ?_, ?_, ?_, h4⟩
      · simpa only [List.append_assoc] using h1
      · rw [h2, endOffset_cons, Position.offset_start_after]
      · simpa only [List.append_assoc] using h3

end Covers

/-- Scanning is exact: it loses nothing of a source but comments and what dashes trim, and doubles
nothing. -/
theorem exact_scan (source : List Char) : Exact source (scan source) := by
  have h : Covers [] source (scan source) := covers_scanFrom .start rfl
  exact ⟨h.first_lt_last, h.pairwise, h.exists_stands, h.exists_hidden⟩

end Token

end Stencil.Markup
