import Stencil.Proofs.Word
import Stencil.Text.Scan

/-! The top level of a text. A search passes over a stretch that leaves no quote and no parenthesis
open, if what it looks for is not at the top level there. So a text is cut at those separators and
keywords that were put between its pieces. -/

namespace Stencil.Text

def marks : List Char := ['|', ':', ',', '=', '!', '<', '>']

def fences : List Char := ['"', '\'', '(', ')']

def isMark (c : Char) : Bool := marks.contains c

def isFence (c : Char) : Bool := fences.contains c

/-- A character of the words of an expression: letters, digits and other signs. -/
def isPlain (c : Char) : Bool := !isBlank c && !isMark c && !isFence c

def Plain (w : List Char) : Prop := ∀ c ∈ w, isPlain c = true

instance (w : List Char) : Decidable (Plain w) := List.decidableBAll _ w

/-- A text that does not go on with a plain character. -/
def Stops (rest : List Char) : Prop := ∀ c ∈ rest.head?, isPlain c = false

namespace Scan

variable {p : Scan → List Char → Bool} {st : Scan} {as bs rest : List Char}

def after (st : Scan) (cs : List Char) : Scan := cs.foldl feed st

theorem after_append (st : Scan) (as bs : List Char) :
    st.after (as ++ bs) = (st.after as).after bs :=
  List.foldl_append

theorem prev_after_concat (st : Scan) (cs : List Char) (c : Char) :
    (st.after (cs ++ [c])).prev = some c := by
  rw [after_append]
  show ((st.after cs).feed c).prev = some c
  rw [feed]
  repeat' split
  all_goals rfl

def Outside (st : Scan) : Prop := st.quote = none ∧ st.depth = 0

theorem outside_start : start.Outside := ⟨rfl, rfl⟩

theorem feed_of_outside (hs : st.Outside) {c : Char} (hc : isFence c = false) :
    st.feed c = ⟨none, 0, some c⟩ := by
  obtain ⟨quote, depth, prev⟩ := st
  obtain ⟨rfl, rfl⟩ := hs
  simp [isFence, fences] at hc
  simp [feed, hc]

theorem atTop_of_outside (hs : st.Outside) {c : Char} (hc : isFence c = false) :
    st.atTop c = true := by
  simp [isFence, fences] at hc
  simp [atTop, hs.1, hs.2, hc]

theorem afterBlank_after {cs blanks : List Char} (hb : Blanks blanks) (hne : blanks ≠ []) :
    (st.after (cs ++ blanks)).afterBlank = true := by
  cases blanks using List.reverseRecOn with
  | nil => exact absurd rfl hne
  | append_singleton bs b =>
    rw [afterBlank, ← List.append_assoc, prev_after_concat]
    exact hb b (by simp)

/-- Nowhere at the top level of a text the search finds something, with a rest behind the text. -/
def Misses (p : Scan → List Char → Bool) (rest : List Char) : Scan → List Char → Prop
  | _, [] => True
  | st, c :: cs =>
    (st.atTop c = true → p st (c :: cs ++ rest) = false) ∧ Misses p rest (st.feed c) cs

theorem misses_append : ∀ {as : List Char} {st : Scan}, Misses p (bs ++ rest) st as →
    Misses p rest (st.after as) bs → Misses p rest st (as ++ bs)
  | [], _, _, hb => hb
  | c :: as, st, ha, hb => by
    refine ⟨?_, misses_append ha.2 hb⟩
    simpa using ha.1

theorem find?_append (h : Misses p rest st as) :
    find? p st (as ++ rest) =
      (find? p (st.after as) rest).map fun (before, behind) => (as ++ before, behind) := by
  induction as generalizing st with
  | nil => simp [after]
  | cons c as ih =>
    have hc : ¬ (st.atTop c && p st (c :: as ++ rest)) = true := by
      rw [Bool.and_eq_true, not_and, Bool.not_eq_true]
      exact h.1
    rw [List.cons_append, find?, ← List.cons_append, if_neg hc, ih h.2, Option.map_map]
    rfl

theorem find?_append_of_found {c : Char} (h : Misses p (c :: rest) st as)
    (ht : (st.after as).atTop c = true) (hp : p (st.after as) (c :: rest) = true) :
    find? p st (as ++ c :: rest) = some (as, c :: rest) := by
  rw [find?_append h, find?, ht, hp]
  simp

def isAt (sep : Char) (_ : Scan) (rest : List Char) : Bool := rest.head? == some sep

theorem split_append {sep : Char} (h : Misses (isAt sep) rest st as) :
    split sep st (as ++ rest) = (split sep (st.after as) rest).modifyHead (as ++ ·) := by
  induction as generalizing st with
  | nil =>
    have hi : (fun cs : List Char => [] ++ cs) = id := rfl
    rw [hi, List.modifyHead_id]
    rfl
  | cons c as ih =>
    have hc : ¬ (st.atTop c && c == sep) = true := by
      rw [Bool.and_eq_true, not_and, Bool.not_eq_true]
      intro ht
      simpa [isAt] using h.1 ht
    rw [List.cons_append, split, if_neg hc, ih h.2, List.modifyHead_modifyHead]
    rfl

/-- The search passes over a text with a rest behind it: it finds nothing at the top level there, and
is outside again at its end. -/
def Passes (p : Scan → List Char → Bool) (as rest : List Char) : Prop :=
  ∀ st : Scan, st.Outside → Misses p rest st as ∧ (st.after as).Outside

theorem Passes.append (ha : Passes p as (bs ++ rest)) (hb : Passes p bs rest) :
    Passes p (as ++ bs) rest := by
  intro st hs
  obtain ⟨hm, ho⟩ := ha st hs
  obtain ⟨hm', ho'⟩ := hb _ ho
  exact ⟨misses_append hm hm', by rwa [after_append]⟩

theorem passes_of_missed (hf : ∀ c ∈ as, isFence c = false)
    (h : ∀ bs, bs <:+ as → bs ≠ [] → ∀ st, p st (bs ++ rest) = false) : Passes p as rest := by
  induction as with
  | nil => exact fun _ hs => ⟨trivial, hs⟩
  | cons c as ih =>
    rw [List.forall_mem_cons] at hf
    have ht := ih hf.2 fun bs hb => h bs (hb.trans (List.suffix_cons c as))
    intro st hs
    obtain ⟨hm, ho⟩ := ht ⟨none, 0, some c⟩ ⟨rfl, rfl⟩
    rw [← feed_of_outside hs hf.1] at hm ho
    exact ⟨⟨fun _ => h _ (List.suffix_refl _) (List.cons_ne_nil c as) st, hm⟩, ho⟩

/-- A character that is no quote and no parenthesis, and at which nothing is found. -/
structure Bare (p : Scan → List Char → Bool) (c : Char) : Prop where
  open_ : isFence c = false
  missed : ∀ st rest, p st (c :: rest) = false

theorem passes_of_bare (h : ∀ c ∈ as, Bare p c) (rest : List Char) : Passes p as rest := by
  refine passes_of_missed (fun c hc => (h c hc).open_) fun bs hb hne st => ?_
  obtain ⟨c, bs, rfl⟩ := List.exists_cons_of_ne_nil hne
  exact (h c (hb.subset List.mem_cons_self)).missed st _

theorem misses_quoted {q : Char} {s : List Char} (hq : q ∉ s) (hb : '\\' ∉ s) :
    ∀ prev, prev ≠ some '\\' → Misses p rest ⟨some q, 0, prev⟩ (s ++ [q]) ∧
      (Scan.after ⟨some q, 0, prev⟩ (s ++ [q])).Outside := by
  induction s with
  | nil =>
    intro prev hp
    have hf : feed ⟨some q, 0, prev⟩ q = ⟨none, 0, some q⟩ := by simp [feed, hp]
    refine ⟨⟨by simp [atTop], trivial⟩, ?_⟩
    simp [after, hf, Outside]
  | cons c s ih =>
    intro prev _
    simp only [List.mem_cons, not_or] at hq hb
    have hf : feed ⟨some q, 0, prev⟩ c = ⟨some q, 0, some c⟩ := by
      simp [feed, Ne.symm hq.1]
    obtain ⟨hm, ho⟩ := ih hq.2 hb.2 (some c) (by simpa using Ne.symm hb.1)
    rw [← hf] at hm ho
    exact ⟨⟨by simp [atTop], hm⟩, ho⟩

theorem passes_literal {q : Char} {s : List Char} (h : isQuote q = true) (hq : q ∉ s)
    (hb : '\\' ∉ s) (rest : List Char) : Passes p (q :: s ++ [q]) rest := by
  intro st hs
  obtain ⟨quote, depth, prev⟩ := st
  obtain ⟨rfl, rfl⟩ := hs
  have hf : feed ⟨none, 0, prev⟩ q = ⟨some q, 0, some q⟩ := by
    simp only [isQuote] at h
    simp [feed, h]
  have hp : some q ≠ some '\\' := by
    rintro he
    cases he
    cases h
  have ht : ¬ atTop ⟨none, 0, prev⟩ q = true := by
    simp only [isQuote, Bool.or_eq_true, beq_iff_eq] at h
    rcases h with rfl | rfl <;> simp [atTop]
  obtain ⟨hm, ho⟩ := misses_quoted hq hb (some q) hp
  rw [← hf] at hm ho
  exact ⟨⟨fun h => absurd h ht, hm⟩, ho⟩

/-- The search passes over a text wherever no plain character follows it. -/
def Skips (p : Scan → List Char → Bool) (as : List Char) : Prop :=
  ∀ rest, Stops rest → Passes p as rest

/-- A search that finds nothing at blanks and at the marks of `M`, and passes over the words of
`W`. -/
structure Ignores (p : Scan → List Char → Bool) (M : Char → Prop) (W : List Char → Prop) : Prop where
  gap : ∀ c, isBlank c = true ∨ isMark c = true ∧ M c → Bare p c
  word : ∀ w, Plain w → W w → Skips p w

end Scan

theorem isPlain_of_isBlank {c : Char} (h : isBlank c = true) : isPlain c = false := by
  simp [isPlain, h]

theorem isPlain_of_isMark {c : Char} (h : isMark c = true) : isPlain c = false := by
  simp [isPlain, h]

theorem isFence_of_isBlank {c : Char} (h : isBlank c = true) : isFence c = false := by
  have hf : (fences.all fun d => !isBlank d) = true := by decide
  by_contra hc
  have hb := List.all_eq_true.1 hf c (by simpa [isFence] using hc)
  simp [h] at hb

theorem isFence_of_isMark {c : Char} (h : isMark c = true) : isFence c = false := by
  have hm : (marks.all fun d => !isFence d) = true := by decide
  simpa using List.all_eq_true.1 hm c (by simpa [isMark] using h)

theorem isBlank_of_isMark {c : Char} (h : isMark c = true) : isBlank c = false := by
  have hm : (marks.all fun d => !isBlank d) = true := by decide
  simpa using List.all_eq_true.1 hm c (by simpa [isMark] using h)

theorem isFence_of_isQuote {c : Char} (h : isQuote c = true) : isFence c = true := by
  simp only [isQuote, Bool.or_eq_true, beq_iff_eq] at h
  rcases h with rfl | rfl <;> decide

theorem isFence_of_isPlain {c : Char} (h : isPlain c = true) : isFence c = false := by
  simp only [isPlain, Bool.and_eq_true, Bool.not_eq_true'] at h
  exact h.2

theorem isBlank_of_isPlain {c : Char} (h : isPlain c = true) : isBlank c = false := by
  simp only [isPlain, Bool.and_eq_true, Bool.not_eq_true'] at h
  exact h.1.1

theorem stops_nil : Stops [] := fun _ h => by cases h

theorem stops_append {s rest : List Char} (h : ∀ c ∈ s, isPlain c = false) (hr : Stops rest) :
    Stops (s ++ rest) := by
  cases s with
  | nil => exact hr
  | cons c s =>
    intro d hd
    cases hd
    exact h c List.mem_cons_self

theorem stops_of_ne_nil {s : List Char} (h : ∀ c ∈ s, isPlain c = false) (hs : s ≠ [])
    (rest : List Char) : Stops (s ++ rest) := by
  cases s with
  | nil => exact absurd rfl hs
  | cons c s =>
    intro d hd
    cases hd
    exact h c List.mem_cons_self

theorem takeWhile_isPlain {w rest : List Char} (hw : Plain w) (hr : Stops rest) :
    (w ++ rest).takeWhile isPlain = w :=
  takeWhile_append_of_stop hw hr

structure Keyword (word : List Char) : Prop where
  ne_nil : word ≠ []
  plain : Plain word

namespace Scan

variable {p : Scan → List Char → Bool} {M : Char → Prop} {W : List Char → Prop}
  {as bs s rest word : List Char}

def Gap (p : Scan → List Char → Bool) (s : List Char) : Prop :=
  ∀ c ∈ s, Bare p c ∧ isPlain c = false

theorem Ignores.gap_blanks (h : Ignores p M W) (hs : Blanks s) : Gap p s :=
  fun c hc => ⟨h.gap c (.inl (hs c hc)), isPlain_of_isBlank (hs c hc)⟩

theorem Gap.passes (h : Gap p s) (rest : List Char) : Passes p s rest :=
  passes_of_bare (fun c hc => (h c hc).1) rest

theorem Gap.stops (h : Gap p s) (hr : Stops rest) : Stops (s ++ rest) :=
  stops_append (fun c hc => (h c hc).2) hr

/-- The search passes over two texts with the stretch between them if it does over each. -/
def Bridges (p : Scan → List Char → Bool) (s : List Char) : Prop :=
  ∀ as bs, Skips p as → Skips p bs → Skips p (as ++ s ++ bs)

theorem Gap.bridges (h : Gap p s) (hne : s ≠ []) : Bridges p s := by
  intro as bs ha hb rest hr
  have hst : Stops (s ++ (bs ++ rest)) := stops_of_ne_nil (fun c hc => (h c hc).2) hne _
  rw [List.append_assoc]
  refine (ha _ ?_).append ((h.passes _).append (hb rest hr))
  rwa [List.append_assoc]

theorem Ignores.bridges_padded (h : Ignores p M W) (hne : word ≠ [])
    (hm : ∀ c ∈ word, isMark c = true ∧ M c) (hs : Padded word s) : Bridges p s := by
  refine Gap.bridges ?_ (ne_nil_of_padded hne hs)
  obtain ⟨l, r, hl, hr, rfl⟩ := hs
  intro d hd
  rw [List.mem_append, List.mem_append] at hd
  rcases hd with (hd | hd) | hd
  · exact h.gap_blanks hl d hd
  · exact ⟨h.gap d (.inr (hm d hd)), isPlain_of_isMark (hm d hd).1⟩
  · exact h.gap_blanks hr d hd

/-- A word between blanks, if the search passes over it before a blank. -/
theorem Ignores.bridges_spaced (h : Ignores p M W)
    (hw : ∀ c rest, isBlank c = true → Passes p word (c :: rest)) (hs : Spaced word s) :
    Bridges p s := by
  obtain ⟨l, r, hl, hr, hne, hne', rfl⟩ := hs
  intro as bs ha hb rest hrest
  have hr' : Passes p (r ++ bs) rest := ((h.gap_blanks hr).passes _).append (hb rest hrest)
  have hwr : Passes p (word ++ (r ++ bs)) rest := by
    refine Passes.append ?_ hr'
    obtain ⟨c, r, rfl⟩ := List.exists_cons_of_ne_nil hne'
    exact hw c _ (hr c List.mem_cons_self)
  have hst : Stops (l ++ (word ++ (r ++ bs) ++ rest)) :=
    stops_of_ne_nil (fun c hc => isPlain_of_isBlank (hl c hc)) hne _
  have he : as ++ (l ++ word ++ r) ++ bs = as ++ (l ++ (word ++ (r ++ bs))) := by simp
  rw [he]
  refine (ha _ ?_).append (((h.gap_blanks hl).passes _).append hwr)
  rwa [List.append_assoc]

theorem Ignores.bridges_keyword (h : Ignores p M W) (hk : Keyword word) (hw : W word)
    (hs : Spaced word s) : Bridges p s := by
  refine h.bridges_spaced (fun c rest hc => h.word word hk.plain hw _ ?_) hs
  rintro d ⟨⟩
  exact isPlain_of_isBlank hc

theorem skips_joined {separates : List Char → Prop} {ps : List (List Char)} {t : List Char}
    (h : Joined separates ps t) (hs : ∀ s, separates s → Bridges p s) (hp : ∀ x ∈ ps, Skips p x) :
    Skips p t := by
  induction h with
  | one x => exact hp x (by simp)
  | cons x sep _ ih =>
    rw [List.forall_mem_cons] at hp
    exact hs _ sep _ _ hp.1 (ih hp.2)

theorem Ignores.passes_padded (h : Ignores p M W) {l r : List Char} (hl : Blanks l) (hr : Blanks r)
    (ha : Skips p as) (hst : Stops (r ++ rest)) : Passes p (l ++ as ++ r) rest := by
  have hg : Passes p r rest := (h.gap_blanks hr).passes rest
  rw [List.append_assoc]
  exact ((h.gap_blanks hl).passes _).append ((ha _ hst).append hg)

theorem find?_eq_none (h : Passes p as []) : find? p .start as = none := by
  have hf := find?_append (h .start outside_start).1
  rw [List.append_nil] at hf
  rw [hf]
  rfl

theorem Ignores.find?_eq_some (h : Ignores p M W) {l r : List Char} {c : Char} (hl : Blanks l)
    (hr : Blanks r) (hne : r ≠ []) (ha : Skips p as) (hc : isFence c = false)
    (hp : ∀ st : Scan, st.afterBlank = true → p st (c :: rest) = true) :
    find? p .start (l ++ as ++ r ++ c :: rest) = some (l ++ as ++ r, c :: rest) := by
  have hst : Stops (r ++ c :: rest) :=
    stops_of_ne_nil (fun d hd => isPlain_of_isBlank (hr d hd)) hne _
  obtain ⟨hm, ho⟩ := h.passes_padded hl hr ha hst .start outside_start
  exact find?_append_of_found hm (atTop_of_outside ho hc) (hp _ (afterBlank_after hr hne))

theorem ignores_of_head {c : Char} (hm : isMark c = true) (hc : ¬ M c)
    (h : ∀ st d rest, d ≠ c → p st (d :: rest) = false) : Ignores p M fun _ => True := by
  refine ⟨fun d hd => ?_, fun w hw _ rest _ => passes_of_bare (fun d hd => ?_) rest⟩
  · rcases hd with hd | ⟨hd, hn⟩
    · refine ⟨isFence_of_isBlank hd, fun st rest => h st d rest ?_⟩
      rintro rfl
      simp [isBlank_of_isMark hm] at hd
    · refine ⟨isFence_of_isMark hd, fun st rest => h st d rest ?_⟩
      rintro rfl
      exact hc hn
  · refine ⟨isFence_of_isPlain (hw d hd), fun st rest => h st d rest ?_⟩
    rintro rfl
    exact absurd (isPlain_of_isMark hm) (by simp [hw d hd])

section Separator

variable {sep : Char}

theorem ignores_isAt (hm : isMark sep = true) : Ignores (isAt sep) (· ≠ sep) (fun _ => True) :=
  ignores_of_head hm (by simp) fun st d rest hd => by simp [isAt, hd]

/-- Cutting at a separator gives the pieces that it was put between, with blanks around them. -/
theorem forall₂_split (hm : isMark sep = true) {ps : List (List Char)} {t : List Char}
    (h : Joined (Padded [sep]) ps t) (hp : ∀ x ∈ ps, Skips (isAt sep) x) :
    ∀ {l r : List Char} {st : Scan}, Blanks l → Blanks r → st.Outside →
      List.Forall₂ Padded ps (split sep st (l ++ t ++ r)) := by
  have hi := ignores_isAt hm
  induction h with
  | one x =>
    intro l r st hl hr hs
    have hx : Skips (isAt sep) x := hp x (by simp)
    have hst : Stops (r ++ []) := (hi.gap_blanks hr).stops stops_nil
    have hc := split_append (hi.passes_padded hl hr hx hst st hs).1
    rw [List.append_nil] at hc
    rw [hc]
    exact .cons ⟨l, r, hl, hr, List.append_nil _⟩ .nil
  | @cons x s t ps hsep _ ih =>
    rw [List.forall_mem_cons] at hp
    intro l r st hl hr hs
    obtain ⟨l', r', hl', hr', rfl⟩ := hsep
    have hst : Stops (l' ++ (sep :: (r' ++ t ++ r))) := by
      apply (hi.gap_blanks hl').stops
      rintro c ⟨⟩
      exact isPlain_of_isMark hm
    obtain ⟨hmiss, ho⟩ := hi.passes_padded hl hl' hp.1 hst st hs
    have hat : ((st.after (l ++ x ++ l')).atTop sep && sep == sep) = true := by
      simpa using atTop_of_outside ho (isFence_of_isMark hm)
    have he : l ++ (x ++ (l' ++ [sep] ++ r') ++ t) ++ r =
        (l ++ x ++ l') ++ (sep :: (r' ++ t ++ r)) := by simp
    have hfeed := feed_of_outside ho (isFence_of_isMark hm)
    rw [he, split_append hmiss, split, if_pos hat, hfeed]
    exact .cons ⟨l, l', hl, hl', by simp⟩ (ih hp.2 hr' hr ⟨rfl, rfl⟩)

end Separator

theorem misses_inside {w : List Char} (hw : Plain w) :
    ∀ st : Scan, st.Outside → st.afterBlank = false →
      Misses (isKeywordAt word) rest st w ∧ (st.after w).Outside := by
  induction w with
  | nil => exact fun _ hs _ => ⟨trivial, hs⟩
  | cons c w ih =>
    replace hw := List.forall_mem_cons.1 hw
    intro st hs hb
    have hf := feed_of_outside hs (isFence_of_isPlain hw.1)
    obtain ⟨hm, ho⟩ := ih hw.2 (st.feed c) (by rw [hf]; exact ⟨rfl, rfl⟩)
      (by rw [hf]; exact isBlank_of_isPlain hw.1)
    exact ⟨⟨fun _ => by simp [isKeywordAt, hb], hm⟩, ho⟩

section Keywords

variable (hk : Keyword word)
include hk

theorem isKeywordAt_of_not_isPlain {c : Char} (hc : isPlain c = false) (st : Scan)
    (rest : List Char) : isKeywordAt word st (c :: rest) = false := by
  cases word with
  | nil => exact absurd rfl hk.ne_nil
  | cons d word =>
    have hd : d ≠ c := by
      rintro rfl
      have := hk.plain d List.mem_cons_self
      simp [hc] at this
    simp [isKeywordAt, hd]

theorem eq_of_isKeywordAt {w : List Char} (hw : Plain w) (hr : Stops rest)
    {st : Scan} (h : isKeywordAt word st (w ++ rest) = true) : w = word := by
  simp only [isKeywordAt, Bool.and_eq_true] at h
  obtain ⟨⟨-, hp⟩, hb⟩ := h
  obtain ⟨t, ht⟩ := List.isPrefixOf_iff_prefix.1 hp
  rw [← ht, List.drop_left] at hb
  have hst : Stops t := by
    intro c hc
    simp only [Option.mem_def] at hc
    rw [hc] at hb
    exact isPlain_of_isBlank hb
  rw [← takeWhile_isPlain hw hr, ← ht, takeWhile_isPlain hk.plain hst]

theorem skips_word {w : List Char} (hw : Plain w) (hne : w ≠ word) :
    Skips (isKeywordAt word) w := by
  intro rest hr st hs
  cases w with
  | nil => exact ⟨trivial, hs⟩
  | cons c w =>
    have hat : isKeywordAt word st (c :: w ++ rest) = false := by
      by_contra h
      exact hne (eq_of_isKeywordAt hk hw hr (Bool.not_eq_false _ ▸ h))
    replace hw := List.forall_mem_cons.1 hw
    have hf := feed_of_outside hs (isFence_of_isPlain hw.1)
    obtain ⟨hm, ho⟩ := misses_inside hw.2 (st.feed c) (by rw [hf]; exact ⟨rfl, rfl⟩)
      (by rw [hf]; exact isBlank_of_isPlain hw.1)
    exact ⟨⟨fun _ => hat, hm⟩, ho⟩

theorem ignores_keyword : Ignores (isKeywordAt word) (fun _ => True) (· ≠ word) := by
  refine ⟨fun c hc => ?_, fun w => skips_word hk⟩
  rcases hc with hc | ⟨hc, -⟩
  · exact ⟨isFence_of_isBlank hc, isKeywordAt_of_not_isPlain hk (isPlain_of_isBlank hc)⟩
  · exact ⟨isFence_of_isMark hc, isKeywordAt_of_not_isPlain hk (isPlain_of_isMark hc)⟩

end Keywords

end Scan

open Scan (Skips Passes Ignores isAt ignores_keyword)

theorem splitArguments_of_joined {ps : List (List Char)} {t l r : List Char}
    (h : Joined (Padded [',']) ps t) (hp : ∀ x ∈ ps, Tidy x ∧ Skips (isAt ',') x) (hl : Blanks l)
    (hr : Blanks r) : splitArguments (l ++ t ++ r) = ps := by
  have hf := Scan.forall₂_split (by decide) h (fun x hx => (hp x hx).2) hl hr Scan.outside_start
  have hm : (splitTop ',' (l ++ t ++ r)).map trim = ps :=
    map_trim_of_padded hf fun x hx => (hp x hx).1
  have he : ¬ ps.getLast?.any List.isEmpty = true := by
    rw [Option.any_eq_true]
    rintro ⟨x, hx, hn⟩
    exact (hp x (List.mem_of_getLast? hx)).1.ne_nil (List.isEmpty_iff.1 hn)
  rw [splitArguments, hm, if_neg he]

theorem findKeyword?_append {word as l l' r' : List Char} (hk : Keyword word)
    (ha : Skips (isKeywordAt word) as) (hl : Blanks l) (hl' : Blanks l') (hr' : Blanks r')
    (hne : l' ≠ []) (hne' : r' ≠ []) (rest : List Char) :
    findKeyword? word (l ++ as ++ l' ++ (word ++ (r' ++ rest))) =
      some (l ++ as ++ l', word ++ (r' ++ rest)) := by
  obtain ⟨c, cs, rfl⟩ := List.exists_cons_of_ne_nil hk.ne_nil
  obtain ⟨b, bs, rfl⟩ := List.exists_cons_of_ne_nil hne'
  have hc : isFence c = false := isFence_of_isPlain (hk.plain c List.mem_cons_self)
  have hb : isBlank b = true := hr' b List.mem_cons_self
  refine (ignores_keyword hk).find?_eq_some hl hl' hne ha hc fun st hst => ?_
  simp [isKeywordAt, hst, hb]

theorem forall₂_splitKeyword {word : List Char} (hk : Keyword word) {ps : List (List Char)}
    {t : List Char} (h : Joined (Spaced word) ps t) (hp : ∀ x ∈ ps, Skips (isKeywordAt word) x) :
    ∀ {l r : List Char}, Blanks l → Blanks r →
      List.Forall₂ Padded ps (splitKeyword word (l ++ t ++ r)) := by
  induction h with
  | one x =>
    intro l r hl hr
    have hx : Skips (isKeywordAt word) x := hp x (by simp)
    rw [splitKeyword]
    split
    · exact .cons ⟨l, r, hl, hr, rfl⟩ .nil
    · rename_i hf
      have hst : Stops (r ++ []) := ((ignores_keyword hk).gap_blanks hr).stops stops_nil
      have hpass := (ignores_keyword hk).passes_padded hl hr hx hst
      rw [findKeyword?, Scan.find?_eq_none hpass] at hf
      cases hf
  | @cons x s t ps hsep _ ih =>
    rw [List.forall_mem_cons] at hp
    intro l r hl hr
    obtain ⟨l', r', hl', hr', hne, hne', rfl⟩ := hsep
    have he : l ++ (x ++ (l' ++ word ++ r') ++ t) ++ r =
        l ++ x ++ l' ++ (word ++ (r' ++ (t ++ r))) := by simp
    have hfound := findKeyword?_append hk hp.1 hl hl' hr' hne hne' (t ++ r)
    rw [he, splitKeyword]
    split
    · rename_i hf
      rw [hfound] at hf
      cases hf
    · rename_i hf
      rw [hfound] at hf
      cases hf
      rw [List.drop_left, ← List.append_assoc]
      exact .cons ⟨l, l', hl, hl', rfl⟩ (ih hp.2 hr' hr)

theorem map_trim_splitKeyword {word : List Char} (hk : Keyword word) {ps : List (List Char)}
    {t : List Char} (h : Joined (Spaced word) ps t)
    (hp : ∀ x ∈ ps, Tidy x ∧ Skips (isKeywordAt word) x) : (splitKeyword word t).map trim = ps := by
  have hf := forall₂_splitKeyword hk h (fun x hx => (hp x hx).2) blanks_nil blanks_nil
  rw [List.nil_append, List.append_nil] at hf
  exact map_trim_of_padded hf fun x hx => (hp x hx).1

end Stencil.Text
