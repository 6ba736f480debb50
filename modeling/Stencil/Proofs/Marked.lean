import Mathlib.Data.List.Basic
import Mathlib.Data.List.Find
import Stencil.Proofs.Level

/-! Texts marked by one scan. Each character keeps whether it is at the top level of the whole text,
and a cut is made at all places where a keyword stands. Cutting at the first keyword and scanning
what follows anew makes the same cuts: at a cut no quote and no parenthesis is open, so what lies
between two cuts is marked as if it were a text of its own. -/

namespace Stencil.Text

/-- A text whose characters are marked: those at the top level with `true`. -/
abbrev Marked := List (Char × Bool)

namespace Scan

variable {st : Scan}

/-- the characters of a text with their marks, by one scan -/
def mark : Scan → List Char → Marked
  | _, [] => []
  | st, c :: cs => (c, st.atTop c) :: mark (st.feed c) cs

theorem mark_append (st : Scan) (as bs : List Char) :
    st.mark (as ++ bs) = st.mark as ++ (st.after as).mark bs := by
  induction as generalizing st with
  | nil => rfl
  | cons a as ih => exact congrArg _ (ih (st.feed a))

@[simp] theorem length_mark (st : Scan) (cs : List Char) : (st.mark cs).length = cs.length := by
  induction cs generalizing st with
  | nil => rfl
  | cons c cs ih => exact congrArg _ (ih (st.feed c))

/-- Outside of quotes and parentheses it does not matter how a scan got there. -/
theorem mark_of_outside (h : st.Outside) (cs : List Char) : st.mark cs = start.mark cs := by
  obtain ⟨quote, depth, prev⟩ := st
  obtain ⟨rfl, rfl⟩ := h
  cases cs <;> rfl

theorem outside_of_atTop {c : Char} (h : st.atTop c = true) : st.Outside := by
  simp only [atTop, Bool.and_eq_true, Option.isNone_iff_eq_none, beq_iff_eq] at h
  exact ⟨h.1.1.1.1.1, h.1.1.1.1.2⟩

theorem outside_after (h : st.Outside) {cs : List Char} (hc : ∀ c ∈ cs, isFence c = false) :
    (st.after cs).Outside := by
  induction cs generalizing st with
  | nil => exact h
  | cons c cs ih =>
    rw [List.forall_mem_cons] at hc
    have hf : (st.feed c).Outside := by
      rw [feed_of_outside h hc.1]
      exact ⟨rfl, rfl⟩
    exact ih hf hc.2

theorem prev_start_after (cs : List Char) : (start.after cs).prev = cs.getLast? := by
  cases cs using List.reverseRecOn with
  | nil => rfl
  | append_singleton cs c => rw [prev_after_concat, List.getLast?_concat]

theorem find?_eq (p : Scan → List Char → Bool) (st : Scan) (cs : List Char) :
    find? p st cs =
      ((List.range cs.length).find? fun i => (cs.drop i).head?.any (st.after (cs.take i)).atTop &&
        p (st.after (cs.take i)) (cs.drop i)).map fun i => (cs.take i, cs.drop i) := by
  induction cs generalizing st with
  | nil => rfl
  | cons c cs ih =>
    rw [find?, List.length_cons, List.range_succ_eq_map, List.find?_cons, List.find?_map]
    by_cases h : (st.atTop c && p st (c :: cs)) = true
    · have h0 : ((List.drop 0 (c :: cs)).head?.any (st.after (List.take 0 (c :: cs))).atTop &&
          p (st.after (List.take 0 (c :: cs))) (List.drop 0 (c :: cs))) = true := h
      rw [if_pos h, h0]
      rfl
    · have h0 : ((List.drop 0 (c :: cs)).head?.any (st.after (List.take 0 (c :: cs))).atTop &&
          p (st.after (List.take 0 (c :: cs))) (List.drop 0 (c :: cs))) = false :=
        Bool.not_eq_true _ ▸ h
      rw [if_neg h, h0, ih, Option.map_map, Option.map_map]
      rfl

end Scan

open Scan (start)

/-- What a search looks for, by the text before a place and the text from there on. -/
abbrev Sought := List Char → List Char → Bool

def keyword (word : List Char) : Sought := fun before rest =>
  before.getLast?.any isBlank && word.isPrefixOf rest && (rest.drop word.length).head?.any isBlank

def operator (mark : List Char) : Sought := fun _ rest => mark.isPrefixOf rest

namespace Marked

variable {m a b s : Marked} {q : Sought} {word : List Char} {i : Nat}

def text (m : Marked) : List Char := m.map (·.1)

def trim (m : Marked) : Marked :=
  ((m.dropWhile (isBlank ·.1)).reverse.dropWhile (isBlank ·.1)).reverse

/-- Does what is sought stand at a place, and begin there at the top level? -/
def standsAt (q : Sought) (m : Marked) (i : Nat) : Bool :=
  (m.drop i).head?.any (·.2) && q (text (m.take i)) (text (m.drop i))

def places (q : Sought) (m : Marked) : List Nat := (List.range m.length).filter (standsAt q m)

/-- the pieces from a place on between stretches of length `n` that begin at further places -/
def between {α : Type} (n : Nat) (l : List α) : Nat → List Nat → List (List α)
  | k, [] => [l.drop k]
  | k, i :: is => (l.take i).drop k :: between n l (i + n) is

/-- the pieces between all places where a keyword stands -/
def cut (word : List Char) (m : Marked) : List Marked :=
  between word.length m 0 (places (keyword word) m)

@[simp] theorem text_append (a b : Marked) : text (a ++ b) = a.text ++ b.text := List.map_append

@[simp] theorem length_text (m : Marked) : m.text.length = m.length := List.length_map _

@[simp] theorem text_take (i : Nat) (m : Marked) : text (m.take i) = m.text.take i := List.map_take

@[simp] theorem text_drop (i : Nat) (m : Marked) : text (m.drop i) = m.text.drop i := List.map_drop

@[simp] theorem text_mark (st : Scan) (cs : List Char) : text (st.mark cs) = cs := by
  induction cs generalizing st with
  | nil => rfl
  | cons c cs ih => exact congrArg _ (ih (st.feed c))

@[simp] theorem text_eq_nil : m.text = [] ↔ m = [] := List.map_eq_nil_iff

theorem mem_text {c : Char} : c ∈ m.text ↔ ∃ x ∈ m, x.1 = c := List.mem_map

theorem text_trim (m : Marked) : m.trim.text = Text.trim m.text := by
  have hd (l : Marked) : (l.dropWhile (isBlank ·.1)).map (·.1) = (l.map (·.1)).dropWhile isBlank := by
    rw [List.dropWhile_map]
    rfl
  rw [text, trim, List.map_reverse, hd, List.map_reverse, hd]
  rfl

theorem trim_prefix (m : Marked) : m.trim <+: m.dropWhile (isBlank ·.1) := by
  rw [← List.reverse_suffix, trim, List.reverse_reverse]
  exact List.dropWhile_suffix _

theorem trim_infix (m : Marked) : m.trim <:+: m :=
  m.trim_prefix.isInfix.trans (List.dropWhile_suffix _).isInfix

/-! Pieces that are marked as if they were scanned alone. -/

/-- Are the marks those of a scan of the text alone? -/
def Alone (m : Marked) : Prop := start.mark m.text = m

theorem alone_mark (cs : List Char) : Alone (start.mark cs) := by rw [Alone, text_mark]

theorem alone_append :
    Alone (a ++ b) ↔ a.Alone ∧ (start.after a.text).mark b.text = b := by
  rw [Alone, text_append, Scan.mark_append]
  constructor
  · exact fun h => List.append_inj h (by simp)
  · rintro ⟨ha, hb⟩
    rw [ha, hb]

theorem Alone.append_left (h : Alone (a ++ b)) : a.Alone := (alone_append.1 h).1

/-- What follows a text that leaves nothing open is marked as if it were scanned alone. -/
theorem Alone.append_right (h : Alone (a ++ b)) (ho : (start.after a.text).Outside) : b.Alone := by
  rw [Alone, ← Scan.mark_of_outside ho]
  exact (alone_append.1 h).2

theorem Alone.atTop (h : m.Alone) (i : Nat) :
    (m.drop i).head?.any (·.2) =
      (m.text.drop i).head?.any (start.after (m.text.take i)).atTop := by
  have hs := h
  rw [← m.take_append_drop i, alone_append, text_take, text_drop] at hs
  rw [← hs.2]
  cases m.text.drop i <;> rfl

theorem Alone.trim (h : m.Alone) : m.trim.Alone := by
  have hd : Alone (m.dropWhile (isBlank ·.1)) := by
    have hs : m.takeWhile (isBlank ·.1) ++ m.dropWhile (isBlank ·.1) = m :=
      List.takeWhile_append_dropWhile
    rw [← hs] at h
    refine h.append_right (Scan.outside_after Scan.outside_start fun c hc => ?_)
    obtain ⟨x, hx, rfl⟩ := mem_text.1 hc
    have hb := List.all_takeWhile (p := fun x : Char × Bool => isBlank x.1) (l := m)
    exact isFence_of_isBlank (List.all_eq_true.1 hb x hx)
  obtain ⟨rest, hr⟩ := m.trim_prefix
  rw [← hr] at hd
  exact hd.append_left

theorem trim_mark (cs : List Char) : (start.mark cs).trim = start.mark (Text.trim cs) := by
  have h := (alone_mark cs).trim
  rw [Alone, text_trim, text_mark] at h
  exact h.symm

theorem Alone.find?_eq (h : m.Alone) {p : Scan → List Char → Bool}
    (hp : ∀ before rest, p (start.after before) rest = q before rest) :
    Scan.find? p start m.text =
      (m.places q).head?.map fun i => (text (m.take i), text (m.drop i)) := by
  rw [Scan.find?_eq, places, List.head?_filter, length_text]
  simp only [text_take, text_drop]
  congr 1
  refine List.find?_congr fun i _ => ?_
  rw [standsAt, h.atTop, hp, text_take, text_drop]

theorem Alone.findKeyword?_eq (h : m.Alone) (word : List Char) :
    findKeyword? word m.text =
      (m.places (keyword word)).head?.map fun i => (text (m.take i), text (m.drop i)) := by
  refine h.find?_eq fun before rest => ?_
  rw [isKeywordAt, Scan.afterBlank, Scan.prev_start_after]
  rfl

theorem Alone.findTop?_eq (h : m.Alone) (mark : List Char) :
    findTop? mark m.text =
      (m.places (operator mark)).head?.map fun i => (text (m.take i), text (m.drop i)) :=
  h.find?_eq fun _ _ => rfl

/-! Places of a keyword. -/

theorem standsAt_iff : standsAt (keyword word) m i = true ↔
    (m.drop i).head?.any (·.2) = true ∧ (m.text.take i).getLast?.any isBlank = true ∧
      word <+: m.text.drop i ∧ (m.text.drop (i + word.length)).head?.any isBlank = true := by
  simp only [standsAt, keyword, Bool.and_eq_true, List.isPrefixOf_iff_prefix, text_take, text_drop,
    List.drop_drop, and_assoc]

theorem any_head?_append {α : Type} {p : α → Bool} {as : List α} (h : as.head?.any p = true)
    (bs : List α) : (as ++ bs).head?.any p = true := by
  cases as with
  | nil => cases h
  | cons a as => exact h

theorem any_getLast?_append {α : Type} {p : α → Bool} {bs : List α} (h : bs.getLast?.any p = true)
    (as : List α) : (as ++ bs).getLast?.any p = true := by
  cases bs using List.reverseRecOn with
  | nil => cases h
  | append_singleton bs b =>
    rw [List.getLast?_concat] at h
    rwa [← List.append_assoc, List.getLast?_concat]

theorem le_length_of_any_head? {α : Type} {p : α → Bool} {l : List α} {i : Nat}
    (h : (l.drop i).head?.any p = true) : i < l.length := by
  by_contra hc
  rw [List.drop_eq_nil_of_le (Nat.le_of_not_lt hc)] at h
  cases h

theorem standsAt_zero (word : List Char) (m : Marked) : standsAt (keyword word) m 0 = false := by
  by_contra h
  obtain ⟨-, hb, -⟩ := standsAt_iff.1 (Bool.not_eq_false _ ▸ h)
  cases hb

theorem standsAt_of_infix (h : standsAt (keyword word) s i = true) (a b : Marked) :
    standsAt (keyword word) (a ++ (s ++ b)) (a.length + i) = true := by
  obtain ⟨ht, hb, hp, hd⟩ := standsAt_iff.1 h
  have hi := Nat.le_of_lt (le_length_of_any_head? ht)
  have hn := Nat.le_of_lt (le_length_of_any_head? hd)
  have hi' : i ≤ s.text.length := by rwa [length_text]
  refine standsAt_iff.2 ⟨?_, ?_, ?_, ?_⟩
  · rw [List.drop_length_add_append, List.drop_append_of_le_length hi]
    exact any_head?_append ht b
  · rw [text_append, text_append, ← length_text a, List.take_length_add_append,
      List.take_append_of_le_length hi']
    exact any_getLast?_append hb a.text
  · rw [text_append, text_append, ← length_text a, List.drop_length_add_append,
      List.drop_append_of_le_length hi']
    exact hp.trans (List.prefix_append _ _)
  · rw [text_append, text_append, ← length_text a, Nat.add_assoc, List.drop_length_add_append,
      List.drop_append_of_le_length hn]
    exact any_head?_append hd b.text

theorem standsAt_inside (hk : Keyword word) (h : standsAt (keyword word) m i = true) {j : Nat}
    (hi : i < j) (hj : j ≤ i + word.length) : standsAt (keyword word) m j = false := by
  obtain ⟨-, -, ⟨behind, hp⟩, -⟩ := standsAt_iff.1 h
  by_contra hc
  obtain ⟨-, hb, -, -⟩ := standsAt_iff.1 (Bool.not_eq_false _ ▸ hc)
  -- what stands before the second place is a character of the keyword
  obtain ⟨t, rfl⟩ : ∃ t, j = i + (t + 1) := ⟨j - i - 1, by omega⟩
  have ht : t < word.length := by omega
  have hw : (m.text.take (i + (t + 1))).getLast? = some word[t] := by
    rw [List.take_add, ← hp, List.take_append_of_le_length ht,
      List.take_succ_eq_append_getElem ht, ← List.append_assoc, List.getLast?_concat]
  rw [hw] at hb
  have hpl : isPlain word[t] = true := hk.plain _ (List.getElem_mem ht)
  have := isBlank_of_isPlain hpl
  simp [this] at hb

theorem standsAt_drop {k j : Nat} (hj : j ≠ 0) :
    standsAt (keyword word) (m.drop k) j = standsAt (keyword word) m (k + j) := by
  rw [Bool.eq_iff_iff, standsAt_iff, standsAt_iff, text_drop, List.drop_drop, List.drop_drop,
    List.drop_drop, Nat.add_assoc]
  refine and_congr_right fun ht => ?_
  have hl := le_length_of_any_head? ht
  have hne : (m.text.drop k).take j ≠ [] := by
    rw [ne_eq, List.take_eq_nil_iff, List.drop_eq_nil_iff, length_text]
    omega
  rw [List.take_add, List.getLast?_append_of_ne_nil _ hne]

theorem places_eq_cons (hk : Keyword word) (h : standsAt (keyword word) m i = true)
    (hf : ∀ j < i, standsAt (keyword word) m j = false) :
    m.places (keyword word) =
      i :: (places (keyword word) (m.drop (i + word.length))).map (i + word.length + ·) := by
  set k := i + word.length with hkd
  have hw : 0 < word.length := List.length_pos_iff.2 hk.ne_nil
  have hkl : k ≤ m.length := by
    have := le_length_of_any_head? (standsAt_iff.1 h).2.2.2
    rw [length_text] at this
    exact Nat.le_of_lt this
  obtain ⟨l, hl⟩ := Nat.exists_eq_add_of_le hkl
  -- up to the end of the keyword there is one place
  have hfront : (List.range k).filter (standsAt (keyword word) m) = [i] := by
    have hc : ∀ j ∈ List.range k, standsAt (keyword word) m j = (j == i) := by
      intro j hj
      rcases Nat.lt_trichotomy j i with hlt | rfl | hgt
      · rw [hf j hlt, beq_eq_false_iff_ne.2 (Nat.ne_of_lt hlt)]
      · rw [h, beq_self_eq_true]
      · rw [standsAt_inside hk h hgt (Nat.le_of_lt (List.mem_range.1 hj)),
          beq_eq_false_iff_ne.2 (Nat.ne_of_gt hgt)]
    rw [List.filter_congr hc, List.filter_beq, List.count_range, if_pos (by omega)]
    rfl
  have hback : ∀ j ∈ List.range l,
      (standsAt (keyword word) m ∘ (k + ·)) j = standsAt (keyword word) (m.drop k) j := by
    intro j _
    by_cases h0 : j = 0
    · subst h0
      rw [standsAt_zero]
      exact standsAt_inside hk h (Nat.lt_add_of_pos_right hw) (Nat.le_refl k)
    · exact (standsAt_drop h0).symm
  rw [places, hl, List.range_add, List.filter_append, hfront, List.filter_map, List.filter_congr hback,
    places, List.length_drop, hl, Nat.add_sub_cancel_left]
  rfl

/-! Cutting at all places of a keyword. -/

theorem between_add {α : Type} (n : Nat) (l : List α) (k j : Nat) (is : List Nat) :
    between n l (k + j) (is.map (k + ·)) = between n (l.drop k) j is := by
  induction is generalizing j with
  | nil => rw [List.map_nil, between, between, List.drop_drop]
  | cons i is ih =>
    rw [List.map_cons, between, between, Nat.add_assoc, ih, ← List.drop_drop, List.take_drop]

def Lacks (q : Sought) (m : Marked) : Prop := m.places q = []

theorem lacks_iff : Lacks q m ↔ ∀ i < m.length, standsAt q m i = false := by
  simp [Lacks, places]

theorem Lacks.of_infix (h : Lacks (keyword word) m) (hs : s <:+: m) : Lacks (keyword word) s := by
  obtain ⟨a, b, rfl⟩ := hs
  refine lacks_iff.2 fun i hi => ?_
  by_contra hc
  have ht := standsAt_of_infix (Bool.not_eq_false _ ▸ hc) a b
  rw [← List.append_assoc, lacks_iff.1 h _ (by simp; omega)] at ht
  cases ht

theorem head?_places (h : standsAt q m i = true) (hf : ∀ j < i, standsAt q m j = false) :
    (m.places q).head? = some i := by
  have hi : i < m.length := by
    rw [standsAt, Bool.and_eq_true] at h
    exact le_length_of_any_head? h.1
  rw [places, List.head?_filter, List.find?_range_eq_some]
  exact ⟨h, List.mem_range.2 hi, fun j hj => by rw [hf j hj]; rfl⟩

/-- A text is cut at the first place of a keyword, and what is behind it like a text of its own. -/
theorem cut_induction (hk : Keyword word) {P : Marked → List Marked → Prop}
    (whole : ∀ m, Lacks (keyword word) m → P m [m])
    (step : ∀ m i, standsAt (keyword word) m i = true →
      (∀ j < i, standsAt (keyword word) m j = false) →
      P (m.drop (i + word.length)) (cut word (m.drop (i + word.length))) →
      P m (m.take i :: cut word (m.drop (i + word.length)))) (m : Marked) : P m (m.cut word) := by
  induction hn : m.length using Nat.strongRecOn generalizing m with
  | ind n ih =>
    subst hn
    rcases hp : m.places (keyword word) with _ | ⟨i, is⟩
    · have := whole m hp
      rwa [cut, hp, between, List.drop_zero]
    · have hh : (m.places (keyword word)).head? = some i := by rw [hp]; rfl
      rw [places, List.head?_filter, List.find?_range_eq_some] at hh
      obtain ⟨hi, hm, hf⟩ := hh
      have hf : ∀ j < i, standsAt (keyword word) m j = false := by simpa using hf
      have hc : m.cut word = m.take i :: cut word (m.drop (i + word.length)) := by
        rw [cut, places_eq_cons hk hi hf, between, List.drop_zero]
        exact congrArg (m.take i :: ·) (between_add word.length m (i + word.length) 0 _)
      have hl := List.length_pos_iff.2 hk.ne_nil
      have hm := List.mem_range.1 hm
      rw [hc]
      exact step m i hi hf (ih _ (by rw [List.length_drop]; omega) _ rfl)

theorem Alone.behind (h : m.Alone) (hk : Keyword word)
    (hi : standsAt (keyword word) m i = true) : Alone (m.drop (i + word.length)) := by
  obtain ⟨ht, -, ⟨rest, hp⟩, -⟩ := standsAt_iff.1 hi
  have ho : (start.after (m.text.take i)).Outside := by
    rw [h.atTop, Option.any_eq_true] at ht
    obtain ⟨c, -, hc⟩ := ht
    exact Scan.outside_of_atTop hc
  rw [← m.take_append_drop (i + word.length)] at h
  refine h.append_right ?_
  rw [text_take, List.take_add, ← hp, List.take_left, Scan.after_append]
  exact Scan.outside_after ho fun c hc => isFence_of_isPlain (hk.plain c hc)

theorem Alone.take (h : m.Alone) (i : Nat) : Alone (m.take i) := by
  rw [← m.take_append_drop i] at h
  exact h.append_left

theorem splitKeyword_of_lacks (h : m.Alone) (hn : Lacks (keyword word) m) :
    splitKeyword word m.text = [m.text] := by
  have hs : findKeyword? word m.text = none := by rw [h.findKeyword?_eq, hn]; rfl
  rw [splitKeyword]
  split
  · rfl
  · rename_i hs'
    rw [hs] at hs'
    cases hs'

/-- Scanning anew behind each cut makes the cuts of one scan. -/
theorem splitKeyword_text (hk : Keyword word) (h : m.Alone) :
    splitKeyword word m.text = (m.cut word).map text := by
  revert h
  refine cut_induction hk (P := fun m ps => m.Alone → splitKeyword word m.text = ps.map text)
    (fun m hn h => ?_) (fun m i hi hf ih h => ?_) m
  · exact splitKeyword_of_lacks h hn
  · have hs : findKeyword? word m.text = some (text (m.take i), text (m.drop i)) := by
      rw [h.findKeyword?_eq, head?_places hi hf]
      rfl
    rw [splitKeyword]
    split
    · rename_i hs'
      rw [hs] at hs'
      cases hs'
    · rename_i hs'
      rw [hs] at hs'
      cases hs'
      rw [List.map_cons, ← ih (h.behind hk hi), text_drop, text_drop, List.drop_drop]

/-- two keywords share a blank, and parentheses and a quote that stays open hide others -/
example : ((start.mark "a or or (b or c) or 'd or e".toList).cut "or".toList).map text =
    ["a ".toList, " ".toList, " (b or c) ".toList, " 'd or e".toList] := by
  decide +kernel

/-- A piece is marked as if it were scanned alone. -/
theorem alone_of_mem_cut (hk : Keyword word) (h : m.Alone) : ∀ s ∈ m.cut word, s.Alone := by
  revert h
  refine cut_induction hk (P := fun m ps => m.Alone → ∀ s ∈ ps, s.Alone)
    (fun m _ h => ?_) (fun m i hi _ ih h => ?_) m
  · exact List.forall_mem_singleton.2 h
  · exact List.forall_mem_cons.2 ⟨h.take i, ih (h.behind hk hi)⟩

theorem infix_of_mem_cut (hk : Keyword word) (m : Marked) : ∀ s ∈ m.cut word, s <:+: m := by
  refine cut_induction hk (P := fun m ps => ∀ s ∈ ps, s <:+: m) (fun m _ => ?_)
    (fun m i _ _ ih => ?_) m
  · exact List.forall_mem_singleton.2 (List.infix_refl m)
  · refine List.forall_mem_cons.2 ⟨(List.take_prefix i m).isInfix, fun s hs => ?_⟩
    exact (ih s hs).trans (List.drop_suffix _ m).isInfix

theorem lacks_of_mem_cut (hk : Keyword word) (m : Marked) :
    ∀ s ∈ m.cut word, Lacks (keyword word) s := by
  refine cut_induction hk (P := fun _ ps => ∀ s ∈ ps, Lacks (keyword word) s) (fun m hn => ?_)
    (fun m i _ hf ih => ?_) m
  · exact List.forall_mem_singleton.2 hn
  · refine List.forall_mem_cons.2 ⟨lacks_iff.2 fun j hj => ?_, ih⟩
    have hj : j < i := (List.length_take .. ▸ hj).trans_le (Nat.min_le_left _ _)
    by_contra hc
    have ht := standsAt_of_infix (Bool.not_eq_false _ ▸ hc) [] (m.drop i)
    rw [List.nil_append, List.take_append_drop, List.length_nil, Nat.zero_add, hf j hj] at ht
    cases ht

end Marked

end Stencil.Text
