import Stencil.Proofs.Lines
import Stencil.Proofs.Inner

/-! Comments. What a comment hides leaves no trace but in the places of what follows it: the rest of
the source is scanned as if it stood alone, and a render gives the same whatever is hidden. -/

namespace Stencil

namespace Markup

variable {origin p : Position}

namespace Position

/-- where a place of a text is in a source, if the text starts at `origin` there -/
def shift (origin p : Position) : Position where
  line := origin.line + (p.line - 1)
  column := if p.line = 1 then origin.column + p.column else p.column
  offset := origin.offset + p.offset

theorem shift_next (h : 0 < p.line) (c : Char) :
    shift origin (p.next c) = (shift origin p).next c := by
  by_cases hc : c = '\n'
  · have hl : p.line + 1 - 1 = p.line - 1 + 1 := by omega
    simp [shift, next, hc, hl, Nat.add_assoc, Nat.ne_of_gt h]
  · simp only [shift, next, beq_iff_eq, hc, if_false, Nat.add_assoc, Position.mk.injEq, true_and,
      and_true]
    split <;> rfl

theorem line_pos_after (h : 0 < p.line) (cs : List Char) : 0 < (p.after cs).line := by
  induction cs generalizing p with
  | nil => exact h
  | cons c cs ih =>
    apply ih
    rw [next]
    split
    · exact Nat.succ_pos _
    · exact h

theorem shift_after (h : 0 < p.line) (cs : List Char) :
    shift origin (p.after cs) = (shift origin p).after cs := by
  induction cs generalizing p with
  | nil => rfl
  | cons c cs ih =>
    have hn : 0 < (p.next c).line := line_pos_after h [c]
    have hs := ih hn
    rw [shift_next h] at hs
    exact hs

end Position

def Span.shift (origin : Position) (s : Span) : Span := ⟨origin.shift s.first, origin.shift s.last⟩

namespace Token

def shift (origin : Position) (t : Token × Span) : Token × Span := (t.1, t.2.shift origin)

theorem leading_shift (h : 0 < p.line) (before : List Char) (b : Block) :
    leading (origin.shift p) before b = (leading p before b).map (shift origin) := by
  rw [leading, leading]
  simp only [← Position.shift_after h]
  generalize (if b.trimsBefore then Text.trimEnd before else before) = s
  cases s <;> rfl

theorem scanFrom_trims (p : Position) (source : List Char) :
    scanFrom p true source =
      scanFrom (p.after (source.takeWhile Text.isBlank)) false (Text.trimStart source) := by
  rw [scanFrom, scanFrom]
  rfl

theorem length_behind_of_commentEnd? {b close : Block} {hidden : List Char}
    (h : commentEnd? b = some (hidden, close)) : close.behind.length ≤ b.behind.length := by
  rw [commentEnd?] at h
  split at h
  · have hl := congrArg List.length (Block.append_of_findTag? h)
    simp only [List.length_append] at hl
    omega
  · cases h

/-- One block further: a text is shifted if all shorter ones are. -/
theorem scanFrom_shift_of_shorter (h : 0 < p.line) {cs : List Char}
    (hs : ∀ (p : Position) trims rest, 0 < p.line → rest.length < cs.length →
      scanFrom (origin.shift p) trims rest = (scanFrom p trims rest).map (shift origin)) :
    scanFrom (origin.shift p) false cs = (scanFrom p false cs).map (shift origin) := by
  cases hf : Block.find? cs with
  | none =>
    by_cases hc : cs = []
    · have he : ∀ p, scanFrom p false [] = [] := fun p => by rw [scanFrom]; simp [Block.find?]
      rw [hc, he, he]
      rfl
    · rw [scanFrom_of_none hf hc, scanFrom_of_none hf hc, ← Position.shift_after h]
      rfl
  | some found =>
    obtain ⟨before, b⟩ := found
    have hb := Block.length_behind_of_find? hf
    have hq := Position.line_pos_after h before
    rw [scanFrom_of_some hf, scanFrom_of_some hf, List.map_append, leading_shift h,
      ← Position.shift_after h]
    cases hc : commentEnd? b with
    | none =>
      simp only [← Position.shift_after hq]
      rw [hs _ _ _ (Position.line_pos_after hq _) hb]
      rfl
    | some found =>
      obtain ⟨hidden, close⟩ := found
      have hl := Nat.lt_of_le_of_lt (length_behind_of_commentEnd? hc) hb
      simp only [← Position.shift_after hq]
      rw [hs _ _ _ (Position.line_pos_after hq _) hl]

theorem scanFrom_shift (h : 0 < p.line) (trims : Bool) (source : List Char) :
    scanFrom (origin.shift p) trims source = (scanFrom p trims source).map (shift origin) := by
  induction hn : source.length using Nat.strong_induction_on generalizing p trims source with
  | h n ih =>
    subst hn
    cases trims with
    | false =>
      exact scanFrom_shift_of_shorter h fun p trims rest h hl => ih rest.length hl h trims rest rfl
    | true =>
      have hl := Text.length_trimStart_le source
      rw [scanFrom_trims, scanFrom_trims, ← Position.shift_after h]
      exact scanFrom_shift_of_shorter (Position.line_pos_after h _) fun p trims rest h hr =>
        ih rest.length (Nat.lt_of_lt_of_le hr hl) h trims rest rfl

end Token

namespace Block

variable {name : String} {b : Block} {cs rest : List Char}

theorem findTag?_append (h : ∀ q, q <:+ cs → q ≠ [] → ∀ b : Block, b.Fronts (q ++ rest) →
      b.isTag name = false) :
    findTag? name (cs ++ rest) = (findTag? name rest).map fun (before, b) => (cs ++ before, b) := by
  induction cs with
  | nil => simp
  | cons c cs ih =>
    have hn : (here? (c :: cs ++ rest)).filter (·.isTag name) = none := by
      cases hh : here? (c :: cs ++ rest) with
      | none => rfl
      | some b =>
        have ht := h (c :: cs) (List.suffix_refl _) (by simp) b (here?_eq_some_iff.1 hh)
        simp [ht]
    have hr := ih fun q hq => h q (hq.trans (List.suffix_cons c cs))
    rw [List.cons_append] at hn ⊢
    rw [findTag?, hn, hr]
    simp [Option.map_map, Function.comp_def]

theorem exists_inner_eq (b : Block) :
    ∃ l r, b.inner = l ++ (b.body ++ r) ∧ ∀ c ∈ l ++ r, Text.isBlank c = true ∨ c = '-' := by
  obtain ⟨rest, text, hf, hl, ⟨l', r', hl', hr', ht⟩, -⟩ := body_eq_iff.1 (rfl : b.body = b.body)
  obtain ⟨l, hi, hld⟩ := hf.exists_append
  obtain ⟨r, hr, hrd⟩ := hl.exists_append
  refine ⟨l ++ l', r' ++ r, ?_, ?_⟩
  · rw [hi, hr, ht]
    simp only [List.append_assoc]
  · intro c hc
    simp only [List.mem_append] at hc
    rcases hc with (hc | hc) | (hc | hc)
    · exact .inr (hld c hc)
    · exact .inl (hl' c hc)
    · exact .inl (hr' c hc)
    · exact .inr (hrd c hc)

/-- A tag that starts in front of another one is no tag of a name, as long as the name is not in
that text: it reaches over the brace of the other, or it lies in front of it. -/
theorem isTag_eq_false (hn : Text.hasPart name.toList cs = false)
    (hb : '\x7b' ∉ name.toList) (hc : cs ≠ []) (hf : b.Fronts (cs ++ '\x7b' :: rest)) :
    b.isTag name = false := by
  by_contra ht
  rw [Bool.not_eq_false, isTag, Bool.and_eq_true, beq_iff_eq, beq_iff_eq] at ht
  obtain ⟨hk, hbody⟩ := ht
  obtain ⟨l, r, hi, hlr⟩ := b.exists_inner_eq
  rw [hbody] at hi
  have hraw : b.raw = '\x7b' :: '%' :: (b.inner ++ ['%', '\x7d']) := by
    simp [raw, hk, Kind.opener, Kind.closer]
  have hpart : ∀ bs, cs ≠ b.raw ++ bs := by
    intro bs he
    rw [Text.hasPart, Option.isSome_eq_false_iff, Option.isNone_iff_eq_none,
      Text.cutAt?_eq_none_iff] at hn
    exact hn ('\x7b' :: '%' :: l) (r ++ ['%', '\x7d'] ++ bs) (by rw [he, hraw, hi]; simp)
  have he : cs ++ '\x7b' :: rest = b.raw ++ b.behind := hf.eq_append
  rcases List.append_eq_append_iff.1 he with ⟨as, has, hrest⟩ | ⟨bs, hbs, -⟩
  · cases as with
    | nil => exact hpart [] (by simpa using has.symm)
    | cons a as =>
      obtain ⟨rfl, -⟩ := List.cons.inj hrest
      obtain ⟨c, cs, rfl⟩ := List.exists_cons_of_ne_nil hc
      -- the brace stands behind the first character, so it is none of the marks
      have hm : '\x7b' ∈ '%' :: (b.inner ++ ['%', '\x7d']) := by
        rw [hraw, List.cons_append] at has
        rw [(List.cons.inj has).2]
        simp
      have hinner : '\x7b' ∈ l ++ (name.toList ++ r) := by simpa [← hi] using hm
      have hlr : '\x7b' ∉ l ++ r := fun hm => absurd (hlr _ hm) (by decide)
      simp only [List.mem_append, not_or] at hinner hlr
      rcases hinner with h | h | h
      · exact hlr.1 h
      · exact hb h
      · exact hlr.2 h
  · exact hpart bs hbs

theorem isTag_enclose (h : Encloses .tag name.toList) (behind : List Char) :
    Block.isTag ⟨.tag, ' ' :: name.toList ++ [' '], behind⟩ name = true := by
  rw [isTag, body_surround h, beq_self_eq_true, beq_self_eq_true]
  rfl

theorem findTag?_enclose (h : Encloses .tag name.toList) (rest : List Char) :
    findTag? name (enclose .tag name.toList ++ rest) =
      some ([], ⟨.tag, ' ' :: name.toList ++ [' '], rest⟩) := by
  have hh : here? (enclose .tag name.toList ++ rest) = _ := here?_enclose h rest
  have hs : enclose .tag name.toList ++ rest =
      '\x7b' :: ('%' :: (' ' :: name.toList ++ ' ' :: Kind.tag.closer) ++ rest) := rfl
  rw [hs] at hh ⊢
  rw [findTag?, hh, Option.filter_some, isTag_enclose h, if_pos rfl]

theorem findTag?_append_enclose (h : Encloses .tag name.toList) (hb : '\x7b' ∉ name.toList)
    (hn : Text.hasPart name.toList cs = false) (rest : List Char) :
    findTag? name (cs ++ (enclose .tag name.toList ++ rest)) =
      some (cs, ⟨.tag, ' ' :: name.toList ++ [' '], rest⟩) := by
  rw [findTag?_append, findTag?_enclose h]
  · simp
  · intro q hq hne b hf
    refine isTag_eq_false ?_ hb hne hf
    obtain ⟨p, rfl⟩ := hq
    rw [Text.hasPart, Option.isSome_eq_false_iff, Option.isNone_iff_eq_none,
      Text.cutAt?_eq_none_iff] at hn ⊢
    intro l r he
    exact hn (p ++ l) r (by rw [he]; simp)

end Block

namespace Token

open Block (enclose)

/-- A comment in a source: the text before it, if there is any, is a token, and what follows it is
scanned by itself. -/
theorem scan_comment {before hidden : List Char} (hb : '\x7b' ∉ before)
    (hh : Text.hasPart "endcomment".toList hidden = false) (behind : List Char) :
    scan (before ++ (enclose .tag "comment".toList ++
        (hidden ++ (enclose .tag "endcomment".toList ++ behind)))) =
      (if before.isEmpty then [] else [(text before, ⟨.start, Position.start.after before⟩)]) ++
        (scan behind).map (shift (Position.start.after (before ++
          (enclose .tag "comment".toList ++ (hidden ++ enclose .tag "endcomment".toList))))) := by
  have ho : Block.Encloses .tag "comment".toList := by decide
  have hc : Block.Encloses .tag "endcomment".toList := by decide
  have hfind : Block.find? (before ++ (enclose .tag "comment".toList ++
      (hidden ++ (enclose .tag "endcomment".toList ++ behind)))) =
      some (before, ⟨.tag, ' ' :: "comment".toList ++ [' '],
        hidden ++ (enclose .tag "endcomment".toList ++ behind)⟩) := by
    rw [Block.find?_append hb, Block.find?_enclose ho]
    simp
  rw [scan, scanFrom_of_some hfind, commentEnd?, Block.isTag_enclose ho, if_pos rfl,
    Block.findTag?_append_enclose hc (by decide) hh]
  have htrims : Block.trimsBehind ⟨.tag, ' ' :: "endcomment".toList ++ [' '], behind⟩ = false := by
    rw [Block.trimsBehind, List.getLast?_concat]
    rfl
  have hraw : ∀ (name behind : List Char),
      Block.raw ⟨.tag, ' ' :: name ++ [' '], behind⟩ = enclose .tag name := by
    simp [Block.raw, enclose]
  have hstart : ∀ origin, scanFrom origin false behind = (scan behind).map (shift origin) :=
    fun origin => @scanFrom_shift origin .start (by decide) false behind
  simp only [htrims, hraw, hstart]
  rw [← Position.after_append, List.append_assoc]
  rfl

end Token

end Markup

open Markup (Position Token)
open Text (hasPart)

def commented (before hidden : String) : String :=
  before ++ "{% comment %}" ++ hidden ++ "{% endcomment %}"

theorem scan_commented {before hidden : String} (hb : '\x7b' ∉ before.toList)
    (hh : hasPart "endcomment".toList hidden.toList = false) (behind : String) :
    Token.scan (commented before hidden ++ behind).toList =
      (if before.toList.isEmpty then []
        else [(.text before.toList, ⟨.start, Position.start.after before.toList⟩)]) ++
        (Token.scan behind.toList).map
          (Token.shift (Position.start.after (commented before hidden).toList)) := by
  have ho : "{% comment %}".toList = Markup.Block.enclose .tag "comment".toList := by decide
  have hc : "{% endcomment %}".toList = Markup.Block.enclose .tag "endcomment".toList := by decide
  simp only [commented, String.toList_append, List.append_assoc, ho, hc]
  exact Token.scan_comment hb hh behind.toList

/-- What a comment hides leaves no trace. The text before it is a token, unless it is empty, and the
other tokens are those of what follows the comment, shifted to its place. Whatever the comment hides,
a render gives the same, up to the line that an error names. -/
theorem comment_hides {before hidden : String} (hb : '\x7b' ∉ before.toList)
    (hh : hasPart "endcomment".toList hidden.toList = false) (behind : String) :
    Token.scan (commented before hidden ++ behind).toList =
        (if before.toList.isEmpty then []
          else [(.text before.toList, ⟨.start, Position.start.after before.toList⟩)]) ++
          (Token.scan behind.toList).map
            (Token.shift (Position.start.after (commented before hidden).toList)) ∧
      ∀ hidden', hasPart "endcomment".toList hidden'.toList = false →
        ∀ (env : Environment) now name,
          Render.Alike name (env.render now name (commented before hidden ++ behind))
            (env.render now name (commented before hidden' ++ behind)) := by
  refine ⟨scan_commented hb hh behind, fun hidden' hh' env now name => ?_⟩
  apply env.alike_render
  rw [scan_commented hb hh, scan_commented hb hh']
  simp only [List.map_append, List.map_map]
  -- a shift leaves the tokens as they are
  rfl

/-- marks that the comment leaves open, the last of them right before the tag that closes it -/
theorem comment_hides_unclosed :
    let before := "a\x7d-\n"
    let hidden := "\x7b\x7b x \x7b%- endraw {% comment %}\n\x7b%\x7b"
    let behind := "{% endcomment %} \x7b\x7b y %\x7d{% include b %}"
    '\x7b' ∉ before.toList ∧ hasPart "endcomment".toList hidden.toList = false ∧
      hasPart "endcomment".toList "".toList = false ∧
      Token.scan (commented before hidden ++ behind).toList =
        (.text before.toList, ⟨.start, ⟨2, 0, 4⟩⟩) ::
          (Token.scan behind.toList).map
            (Token.shift (Position.start.after (commented before hidden).toList)) ∧
      ∀ (env : Environment) now name,
        Render.Alike name (env.render now name (commented before hidden ++ behind))
          (env.render now name (commented before "" ++ behind)) := by
  intro before hidden behind
  have hb : '\x7b' ∉ before.toList := by decide
  have hh : hasPart "endcomment".toList hidden.toList = false := by decide
  have he : hasPart "endcomment".toList "".toList = false := by decide
  obtain ⟨hs, hr⟩ := comment_hides hb hh behind
  have hn : before.toList.isEmpty = false := by decide
  have hp : Position.start.after before.toList = ⟨2, 0, 4⟩ := by decide
  rw [hn, hp] at hs
  exact ⟨hb, hh, he, hs, hr "" he⟩

end Stencil
