import Mathlib.Data.List.Induction
import Mathlib.Data.List.TakeWhile
import Stencil.Proofs.Inner

/-! What tokens cover. A source is its tokens as they stand in it, one after the other, and what is
hidden between them: comments, and blanks that a dash has trimmed. -/

namespace Stencil

namespace Markup

open Text (isBlank trimStart trimEnd)

/-- Does a text end with a block that trims what follows it? -/
def TrimsBehind (before : List Char) : Prop :=
  ∃ (front cs behind : List Char) (b : Block), before = front ++ cs ∧ b.Fills cs behind ∧ b.DashLast

/-- Does a block stand at the front of a text that trims what is before it? -/
def TrimsBefore (behind : List Char) : Prop := ∃ b : Block, b.Fronts behind ∧ b.DashFirst

/-- A comment: a tag that opens it, the text it hides, and the first tag from there on that closes
it. -/
structure Comments (opener hidden closer behind : List Char) : Prop where
  opens : ∃ b : Block, b.Fills opener (hidden ++ (closer ++ behind)) ∧ b.Names "comment"
  closes : ∃ b : Block, b.Fills closer behind ∧ b.Names "endcomment"
  first : ∀ q, q <:+ hidden → q ≠ [] →
    ∀ b : Block, b.Fronts (q ++ (closer ++ behind)) → ¬ b.Names "endcomment"

/-- A stretch of a source that leaves no token, between what is before and what is behind it: whole
comments, and blanks next to a mark that trims them. -/
inductive Hidden : List Char → List Char → List Char → Prop
  | nil {before behind : List Char} : Hidden before [] behind
  | blanks {before blanks gap behind : List Char} (blank : ∀ c ∈ blanks, isBlank c = true)
      (trimmed : TrimsBehind before ∨ TrimsBefore (gap ++ behind)) :
      Hidden (before ++ blanks) gap behind → Hidden before (blanks ++ gap) behind
  | comment {before gap behind opener hidden closer : List Char}
      (comments : Comments opener hidden closer (gap ++ behind)) :
      Hidden (before ++ (opener ++ hidden ++ closer)) gap behind →
      Hidden before (opener ++ hidden ++ closer ++ gap) behind

namespace Token

/-- Does a text start without a blank if a block before it, or before the blanks there, trims what
follows it? -/
def StartsTrimmed (before s : List Char) : Prop :=
  ∀ front blanks, before = front ++ blanks → (∀ c ∈ blanks, isBlank c = true) →
    TrimsBehind front → ∀ c ∈ s.head?, isBlank c = false

/-- A text between what is before and what is behind it. Blanks at its end are trimmed if the block
there asks for it, and it has none at its start if the block or comment before it does. No block can
open in it. -/
structure TextStands (before cs behind s : List Char) : Prop where
  ne_nil : s ≠ []
  trimmed : TrimsBefore behind → Text.Shorn s cs
  whole : ¬ TrimsBefore behind → s = cs
  start : StartsTrimmed before s
  unopened : ∀ q, q <:+ cs → q ≠ [] → ¬ Block.Opens (q ++ behind)

/-- How a token stands in a source. A tag that opens a comment is a token only if no tag behind it
closes the comment. -/
def Stands (before cs behind : List Char) : Token → Prop
  | text s => TextStands before cs behind s
  | output body => ∃ b : Block, b.kind = .output ∧ b.Fills cs behind ∧ b.Says body
  | tag body raw =>
    (∃ b : Block, b.kind = .tag ∧ b.Fills cs behind ∧ b.Says body) ∧ raw = cs ∧
      (body = "comment".toList →
        ∀ q, q <:+ behind → ∀ b : Block, b.Fronts q → ¬ b.Names "endcomment")

/-- How tokens cover what follows a text: each in its place, and what is hidden in between. -/
inductive Covers : List Char → List Char → List (Token × Span) → Prop
  | done {before gap : List Char} : Hidden before gap [] → Covers before gap []
  | token {before gap cs behind : List Char} {t : Token} {ts : List (Token × Span)}
      (hidden : Hidden before gap (cs ++ behind)) (ne_nil : cs ≠ [])
      (stands : t.Stands (before ++ gap) cs behind) :
      Covers (before ++ gap ++ cs) behind ts →
      Covers before (gap ++ (cs ++ behind))
        ((t, ⟨Position.start.after (before ++ gap), Position.start.after (before ++ gap ++ cs)⟩) :: ts)

end Token

namespace Hidden

variable {before gap gap' behind : List Char}

theorem append (h : Hidden before gap (gap' ++ behind)) (h' : Hidden (before ++ gap) gap' behind) :
    Hidden before (gap ++ gap') behind := by
  generalize hr : gap' ++ behind = rest at h
  induction h with
  | nil => simpa using h'
  | blanks hb ht _ ih =>
    subst hr
    rw [List.append_assoc]
    exact .blanks hb (by simpa using ht) (ih (by simpa using h') rfl)
  | comment hc _ ih =>
    subst hr
    rw [List.append_assoc]
    exact .comment (by simpa using hc) (ih (by simpa using h') rfl)

theorem of_blanks {blanks : List Char} (hb : ∀ c ∈ blanks, isBlank c = true)
    (ht : TrimsBehind before ∨ TrimsBefore behind) : Hidden before blanks behind := by
  have h : Hidden before (blanks ++ []) behind := .blanks hb ht .nil
  rwa [List.append_nil] at h

theorem of_comment {opener hidden closer : List Char} (hc : Comments opener hidden closer behind) :
    Hidden before (opener ++ hidden ++ closer) behind := by
  have h : Hidden before (opener ++ hidden ++ closer ++ []) behind := .comment hc .nil
  rwa [List.append_nil] at h

end Hidden

/-! The flag that scanning carries says how the text before it ends. -/

/-- Does a flag say whether a text ends with a block that trims what follows it? The text is empty
or ends with a block. -/
inductive Joint : List Char → Bool → Prop
  | start : Joint [] false
  | block (front : List Char) {b : Block} (fronts : b.Fronts (b.raw ++ b.behind)) :
      Joint (front ++ b.raw) b.trimsBehind

theorem Block.getLast?_append_opener (kind : Kind) (front inner : List Char) :
    (front ++ kind.opener ++ inner).getLast? = some '-' ↔ inner.getLast? = some '-' := by
  cases inner using List.reverseRecOn with
  | nil => cases kind <;> simp [Kind.opener]
  | append_singleton cs c => rw [← List.append_assoc, List.getLast?_concat, List.getLast?_concat]

theorem Block.trimsBehind_congr {front front' : List Char} {b b' : Block}
    (h : front ++ b.raw = front' ++ b'.raw) : b.trimsBehind = b'.trimsBehind := by
  have hl : b.kind.closer.length = b'.kind.closer.length := by
    cases b.kind <;> cases b'.kind <;> rfl
  simp only [raw, ← List.append_assoc] at h
  obtain ⟨hi, -⟩ := List.append_inj' h hl
  rw [Bool.eq_iff_iff, trimsBehind, trimsBehind, beq_iff_eq, beq_iff_eq,
    ← getLast?_append_opener b.kind front, hi, getLast?_append_opener]

theorem Block.isBlank_getLast?_raw (front : List Char) (b : Block) :
    ∀ c ∈ (front ++ b.raw).getLast?, isBlank c = false := by
  intro c hc
  have he : front ++ b.raw = front ++ b.kind.opener ++ b.inner ++ b.kind.closer := by simp [raw]
  rw [he] at hc
  cases hk : b.kind <;> simp [hk, Kind.closer] at hc <;> subst hc <;> decide

namespace Joint

variable {before : List Char} {trims : Bool}

theorem trimsBehind (h : Joint before true) : TrimsBehind before := by
  generalize ht : true = trims at h
  cases h with
  | start => cases ht
  | block front hf => exact ⟨front, _, _, _, rfl, hf.fills, Block.trimsBehind_iff.1 ht.symm⟩

theorem isBlank_getLast? (h : Joint before trims) : ∀ c ∈ before.getLast?, isBlank c = false := by
  cases h with
  | start => simp
  | block front hf => exact Block.isBlank_getLast?_raw front _

theorem eq_true (h : Joint before trims) (ht : TrimsBehind before) : trims = true := by
  obtain ⟨front, cs, behind, b, he, hf, hl⟩ := ht
  obtain rfl := hf.eq_raw
  cases h with
  | start =>
    have hl := congrArg List.length he
    have := b.length_raw_pos
    simp at hl
    omega
  | block front' _ => rw [Block.trimsBehind_congr he, Block.trimsBehind_iff.2 hl]

theorem eq_true_of_blanks (h : Joint before trims) {front blanks blanks' : List Char}
    (hb : ∀ c ∈ blanks, isBlank c = true) (hb' : ∀ c ∈ blanks', isBlank c = true)
    (he : before ++ blanks = front ++ blanks') (ht : TrimsBehind front) : trims = true := by
  have hf : ∀ c ∈ front.getLast?, isBlank c = false := by
    obtain ⟨front', cs, behind, b, rfl, hf, -⟩ := ht
    rw [hf.eq_raw]
    exact Block.isBlank_getLast?_raw front' b
  have := congrArg trimEnd he
  rw [Text.trimEnd_append_blanks hb h.isBlank_getLast?, Text.trimEnd_append_blanks hb' hf] at this
  exact h.eq_true (this ▸ ht)

end Joint

/-! Scanning covers the source. -/

namespace Token

variable {before gap rest : List Char} {ts : List (Token × Span)}

theorem Covers.hide (hg : Hidden before gap rest) (h : Covers (before ++ gap) rest ts) :
    Covers before (gap ++ rest) ts := by
  cases h with
  | done hd => exact .done ((by simpa using hg : Hidden before gap (rest ++ [])).append hd)
  | token hh hn hs hr =>
    simp only [List.append_assoc] at hs hr hh ⊢
    have := Covers.token (hg.append hh) hn (by simpa using hs) (by simpa using hr)
    simpa using this

theorem StartsTrimmed.of_prefix {s s' : List Char} (h : StartsTrimmed before s) (hp : s' <+: s) :
    StartsTrimmed before s' := by
  intro front blanks he hb ht c hc
  obtain ⟨rest, rfl⟩ := hp
  refine h front blanks he hb ht c ?_
  rw [List.head?_append, Option.mem_def.1 hc]
  rfl

theorem Covers.cons {t : Token} {cs behind : List Char} (hn : cs ≠ [])
    (hs : t.Stands before cs behind) (h : Covers (before ++ cs) behind ts) :
    Covers before (cs ++ behind)
      ((t, ⟨Position.start.after before, Position.start.after (before ++ cs)⟩) :: ts) := by
  have hg : Hidden before [] (cs ++ behind) := .nil
  simpa using Covers.token hg hn (by simpa using hs) (by simpa using h)

/-- What scanning skips behind a text: blanks, and only where a block trims them. What is left then
starts with none. -/
theorem exists_skipped {trims : Bool} (h : Joint before trims) (source : List Char) :
    ∃ blanks, source = blanks ++ (if trims then trimStart source else source) ∧
      (∀ p : Position, (if trims then p.after (source.takeWhile isBlank) else p) = p.after blanks) ∧
      (∀ rest, Hidden before blanks rest) ∧
      StartsTrimmed (before ++ blanks) (if trims then trimStart source else source) := by
  cases trims with
  | false =>
    refine ⟨[], rfl, fun p => rfl, fun rest => .nil, fun front blanks he hb ht => ?_⟩
    cases h.eq_true_of_blanks (by simp) hb he ht
  | true =>
    have hb : ∀ c ∈ source.takeWhile isBlank, isBlank c = true :=
      fun c hc => List.mem_takeWhile_imp hc
    refine ⟨source.takeWhile isBlank, by simp [trimStart], fun p => rfl,
      fun rest => .of_blanks hb (.inl h.trimsBehind), fun _ _ _ _ _ c hc => ?_⟩
    have := List.head?_dropWhile_not isBlank source
    simp only [if_true, trimStart] at hc
    rw [Option.mem_def.1 hc] at this
    simpa using this

theorem covers_leading {cs : List Char} {b : Block} (hf : b.Fronts (b.raw ++ b.behind))
    (hu : ∀ q, q <:+ cs → q ≠ [] → ¬ Block.Opens (q ++ (b.raw ++ b.behind)))
    (hs : StartsTrimmed before cs) (h : Covers (before ++ cs) (b.raw ++ b.behind) ts) :
    Covers before (cs ++ (b.raw ++ b.behind))
      (leading (Position.start.after before) cs b ++ ts) := by
  have htrims : TrimsBefore (b.raw ++ b.behind) ↔ b.trimsBefore = true := by
    constructor
    · rintro ⟨b', hf', ht⟩
      rw [← Block.here?_eq_some_iff] at hf hf'
      cases hf.symm.trans hf'
      exact Block.trimsBefore_iff.2 ht
    · exact fun ht => ⟨b, hf, Block.trimsBefore_iff.1 ht⟩
  rw [leading]
  by_cases hn : (if b.trimsBefore then trimEnd cs else cs) = []
  · -- nothing is left of the text, so that it is empty or trimmed away
    simp only [hn, List.isEmpty_nil, if_true, List.nil_append]
    refine h.hide ?_
    split at hn
    · rename_i ht
      obtain ⟨⟨blanks, hb, rfl⟩, -⟩ := Text.trimEnd_eq_iff.1 hn
      exact .of_blanks hb (.inr (htrims.2 ht))
    · rw [hn]
      exact .nil
  · have hc : cs ≠ [] := by
      rintro rfl
      simp [trimEnd] at hn
    simp only [List.isEmpty_iff, hn, if_false, ← Position.after_append]
    refine Covers.cons hc (TextStands.mk hn ?_ ?_ ?_ hu) h
    · exact fun ht => Text.trimEnd_eq_iff.1 (if_pos (htrims.1 ht)).symm
    · exact fun ht => by rw [if_neg (mt htrims.2 ht)]
    · refine hs.of_prefix ?_
      split
      · obtain ⟨⟨blanks, -, he⟩, -⟩ := Text.shorn_trimEnd cs
        exact ⟨blanks, he.symm⟩
      · exact List.prefix_rfl

theorem covers_block {b : Block} (hf : b.Fronts (b.raw ++ b.behind)) (hc : commentEnd? b = none)
    (h : Covers (before ++ b.raw) b.behind ts) :
    Covers before (b.raw ++ b.behind)
      ((ofBlock b, ⟨Position.start.after before, Position.start.after (before ++ b.raw)⟩) :: ts) := by
  refine Covers.cons (List.length_pos_iff.1 b.length_raw_pos) ?_ h
  rw [ofBlock]
  cases hk : b.kind with
  | output => exact ⟨b, hk, hf.fills, Block.body_eq_iff.1 rfl⟩
  | tag =>
    refine ⟨⟨b, hk, hf.fills, Block.body_eq_iff.1 rfl⟩, rfl, fun hb q hq b' hb' => ?_⟩
    rw [commentEnd?, if_pos (by simp [Block.isTag, hk, hb])] at hc
    exact Block.isTag_eq_false_iff.1 (Block.not_fronts_of_findTag? hc q hq b' hb')

theorem comments_of_commentEnd? {b close : Block} {hidden : List Char}
    (hf : b.Fronts (b.raw ++ b.behind)) (h : commentEnd? b = some (hidden, close)) :
    b.behind = hidden ++ (close.raw ++ close.behind) ∧ close.Fronts (close.raw ++ close.behind) ∧
      Comments b.raw hidden close.raw close.behind := by
  rw [commentEnd?] at h
  split at h
  · rename_i ht
    have he : b.behind = hidden ++ (close.raw ++ close.behind) := by
      rw [Block.append_of_findTag? h, List.append_assoc]
    obtain ⟨hc, hn, hfirst⟩ := Block.fronts_of_findTag? h
    refine ⟨he, hc, ⟨b, he ▸ hf.fills, Block.isTag_iff.1 ht⟩,
      ⟨close, hc.fills, Block.isTag_iff.1 hn⟩, fun q hq hne b' hb' => ?_⟩
    exact Block.isTag_eq_false_iff.1 (hfirst q hq hne b' hb')
  · cases h

theorem covers_comment {b close : Block} {hidden : List Char}
    (he : b.behind = hidden ++ (close.raw ++ close.behind))
    (hc : Comments b.raw hidden close.raw close.behind)
    (h : Covers (before ++ (b.raw ++ hidden ++ close.raw)) close.behind ts) :
    Covers before (b.raw ++ b.behind) ts := by
  have := h.hide (.of_comment hc)
  simpa [he] using this

theorem covers_text {cs : List Char} (hn : cs ≠ []) (hf : Block.find? cs = none)
    (hs : StartsTrimmed before cs) :
    Covers before cs
      [(text cs, ⟨Position.start.after before, Position.start.after (before ++ cs)⟩)] := by
  have ht : ¬ TrimsBefore [] := by
    rintro ⟨b, hb, -⟩
    cases Block.here?_eq_some_iff.2 hb
  have hu : ∀ q, q <:+ cs → q ≠ [] → ¬ Block.Opens (q ++ []) := fun q hq _ => by
    rw [List.append_nil]
    exact Block.not_opens_of_find? hf q hq
  have := Covers.cons (t := text cs) hn (TextStands.mk hn (absurd · ht) (fun _ => rfl) hs hu)
    (.done .nil)
  rwa [List.append_nil] at this

/-- From where a text ends that the flag fits, the tokens cover what follows. -/
theorem covers_scanFrom {p : Position} {trims : Bool} {source : List Char}
    (h : Joint before trims) (hp : p = Position.start.after before) :
    Covers before source (scanFrom p trims source) := by
  -- along the scan; `Joint` is what each block hands on to the text behind it
  fun_induction scanFrom p trims source generalizing before with
  | case1 p trims source cs hf =>
    rename_i hn
    obtain ⟨blanks, he, -, hg, -⟩ := exists_skipped h source
    replace he : source = blanks ++ cs := he
    rw [he, List.isEmpty_iff.1 hn]
    exact Covers.hide (hg _) (.done .nil)
  | case2 p trims source cs p' hf =>
    rename_i hn
    obtain ⟨blanks, he, hq, hg, hs⟩ := exists_skipped h source
    replace he : source = blanks ++ cs := he
    have hp' : p' = Position.start.after (before ++ blanks) := by
      rw [Position.after_append, ← hp]
      exact hq p
    rw [he, hp', ← Position.after_append]
    exact Covers.hide (hg _) (covers_text (by simpa using hn) hf hs)
  | case3 p trims source cs p' front b hf q ih2 =>
    rename_i ih1
    obtain ⟨blanks, he, hq, hg, hs⟩ := exists_skipped h source
    replace he : source = blanks ++ (front ++ (b.raw ++ b.behind)) := by
      rw [he, ← List.append_assoc front, ← Block.append_of_find? hf]
      rfl
    have hp' : p' = Position.start.after (before ++ blanks) := by
      rw [Position.after_append, ← hp]
      exact hq p
    have hq : q = Position.start.after (before ++ blanks ++ front) := by
      rw [Position.after_append, ← hp']
    obtain ⟨hb, hu⟩ := Block.fronts_of_find? hf
    have hs : StartsTrimmed (before ++ blanks) front :=
      StartsTrimmed.of_prefix hs ⟨b.raw ++ b.behind, by
        rw [← List.append_assoc, ← Block.append_of_find? hf]
        rfl⟩
    rw [he, hp']
    refine Covers.hide (hg _) (covers_leading hb hu hs ?_)
    -- the block is hidden with the comment it opens, or else it is a token
    split
    · rename_i hidden close hc
      obtain ⟨he, hcl, hcs⟩ := comments_of_commentEnd? hb hc
      refine covers_comment he hcs (ih2 hidden close hc ?_ ?_)
      · have := Joint.block (before ++ blanks ++ front ++ (b.raw ++ hidden)) hcl
        simpa using this
      · rw [hq, ← Position.after_append]
    · rename_i hc
      have hr : q.after b.raw = Position.start.after (before ++ blanks ++ front ++ b.raw) := by
        rw [hq, ← Position.after_append]
      rw [hr, hq]
      exact covers_block hb hc (hr ▸ ih1 (.block _ hb) hr)

end Token

end Markup

end Stencil
