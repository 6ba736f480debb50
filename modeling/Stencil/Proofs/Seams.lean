import Stencil.Proofs.Marked
import Stencil.Proofs.Spelling

/-! Where texts are cut. Cutting at a separator or at a keyword loses nothing but what stands at the
seams, and the seams are all places of it at the top level in one scan of the text, whatever quotes
and parentheses stay open: a scan is outside of them at each cut, and so are the pieces from there
on. -/

namespace Stencil.Text

open Scan (start)

/-- Where the stretches of length `n` begin that stood between pieces. -/
def seams {α : Type} (n : Nat) : List (List α) → List Nat
  | [] | [_] => []
  | p :: q :: ps => p.length :: (seams n (q :: ps)).map (p.length + n + ·)

/-- The pieces of a text between marks that stand at the given places. -/
structure CutsAt (mark : List Char) (is : List Nat) (cs : List Char) (ps : List (List Char)) :
    Prop where
  joined : mark.intercalate ps = cs
  cuts : seams mark.length ps = is

variable {mark word p cs : List Char} {ps : List (List Char)} {is : List Nat} {sep : Char}

theorem seams_cons {α : Type} (n : Nat) (p : List α) {ps : List (List α)} (h : ps ≠ []) :
    seams n (p :: ps) = p.length :: (seams n ps).map (p.length + n + ·) := by
  cases ps with
  | nil => exact absurd rfl h
  | cons q ps => rfl

theorem cutsAt_whole (mark cs : List Char) : CutsAt mark [] cs [cs] :=
  ⟨List.intercalate_singleton, rfl⟩

theorem CutsAt.cons (h : CutsAt mark is cs ps) (hp : ps ≠ []) (p : List Char) :
    CutsAt mark (p.length :: is.map (p.length + mark.length + ·)) (p ++ mark ++ cs) (p :: ps) := by
  refine ⟨?_, by rw [seams_cons _ p hp, h.cuts]⟩
  obtain ⟨q, qs, rfl⟩ := List.exists_cons_of_ne_nil hp
  rw [List.intercalate_cons_cons, h.joined]

theorem CutsAt.modifyHead (h : CutsAt mark is cs ps) (hp : ps ≠ []) (c : Char) :
    CutsAt mark (is.map (· + 1)) (c :: cs) (ps.modifyHead (c :: ·)) := by
  obtain ⟨q, qs, rfl⟩ := List.exists_cons_of_ne_nil hp
  obtain ⟨rfl, rfl⟩ := h
  cases qs with
  | nil =>
    rw [List.intercalate_singleton]
    exact cutsAt_whole mark (c :: q)
  | cons r rs =>
    refine ⟨?_, ?_⟩
    · rw [List.modifyHead_cons, List.intercalate_cons_cons, List.intercalate_cons_cons]
      rfl
    · have hr : r :: rs ≠ [] := List.cons_ne_nil r rs
      rw [List.modifyHead_cons, seams_cons _ _ hr, seams_cons _ _ hr, List.map_cons, List.map_map]
      refine congrArg _ (List.map_congr_left fun i _ => ?_)
      simp only [Function.comp_apply, List.length_cons]
      omega

/-! Separators. -/

namespace Marked

variable {m : Marked}

theorem places_operator_cons (mark : List Char) (x : Char × Bool) (m : Marked) :
    places (operator mark) (x :: m) =
      if x.2 && mark.isPrefixOf (x.1 :: m.text) then
        0 :: (places (operator mark) m).map (· + 1)
      else (places (operator mark) m).map (· + 1) := by
  rw [places, List.length_cons, List.range_succ_eq_map, List.filter_cons, List.filter_map]
  rfl

end Marked

namespace Scan

variable {st : Scan}

theorem split_of_outside (h : st.Outside) (sep : Char) (cs : List Char) :
    split sep st cs = split sep start cs := by
  obtain ⟨quote, depth, prev⟩ := st
  obtain ⟨rfl, rfl⟩ := h
  cases cs <;> rfl

theorem outside_feed {c : Char} (h : st.atTop c = true) : (st.feed c).Outside := by
  have ho := outside_of_atTop h
  have hf : isFence c = false := by
    simp only [atTop, Bool.and_eq_true, bne_iff_ne] at h
    simp [isFence, fences, h]
  rw [feed_of_outside ho hf]
  exact ⟨rfl, rfl⟩

/-- From any state of the scan, the cuts are at the separators that it meets at the top level. -/
theorem cutsAt_split (sep : Char) (st : Scan) (cs : List Char) :
    CutsAt [sep] ((st.mark cs).places (operator [sep])) cs (split sep st cs) := by
  induction cs generalizing st with
  | nil => exact cutsAt_whole [sep] []
  | cons c cs ih =>
    have hne := split_ne_nil sep (st.feed c) cs
    have hp : [sep].isPrefixOf (c :: cs) = (c == sep) := by
      rw [List.isPrefixOf, List.isPrefixOf, Bool.and_true, Bool.beq_comm]
    rw [mark, Marked.places_operator_cons, Marked.text_mark, split, hp]
    by_cases hc : (st.atTop c && c == sep) = true
    · rw [if_pos hc, if_pos hc]
      obtain ⟨-, rfl⟩ : st.atTop c = true ∧ c = sep := by simpa using hc
      have := (ih (st.feed c)).cons hne []
      simpa [Nat.add_comm 1] using this
    · rw [if_neg hc, if_neg hc]
      exact (ih (st.feed c)).modifyHead hne c

/-- The first piece is one piece in the scan that it was cut from, and the others are as texts of
their own. -/
theorem exists_split_eq_cons (sep : Char) (st : Scan) (cs : List Char) :
    ∃ p ps, split sep st cs = p :: ps ∧ split sep st p = [p] ∧ ∀ q ∈ ps, split sep start q = [q] := by
  induction cs generalizing st with
  | nil => exact ⟨[], [], rfl, rfl, by simp⟩
  | cons c cs ih =>
    by_cases hc : (st.atTop c && c == sep) = true
    · -- behind a cut the scan is outside, as at the start of a text
      have ho : (st.feed c).Outside := outside_feed (Bool.and_eq_true_iff.1 hc).1
      obtain ⟨p, ps, he, hp, hps⟩ := ih start
      refine ⟨[], split sep (st.feed c) cs, by rw [split, if_pos hc], rfl, ?_⟩
      rw [split_of_outside ho, he]
      exact List.forall_mem_cons.2 ⟨hp, hps⟩
    · obtain ⟨p, ps, he, hp, hps⟩ := ih (st.feed c)
      refine ⟨c :: p, ps, ?_, ?_, hps⟩
      · rw [split, if_neg hc, he, List.modifyHead_cons]
      · rw [split, if_neg hc, hp, List.modifyHead_cons]

end Scan

theorem splitTop_piece (h : p ∈ splitTop sep cs) : splitTop sep p = [p] := by
  obtain ⟨q, qs, he, hq, hqs⟩ := Scan.exists_split_eq_cons sep start cs
  rw [splitTop, he] at h
  rcases List.mem_cons.1 h with rfl | h
  · exact hq
  · exact hqs p h

/-! Keywords. -/

namespace Marked

variable {m : Marked} {i : Nat}

theorem cut_ne_nil (word : List Char) (m : Marked) : m.cut word ≠ [] := by
  unfold cut
  cases places (keyword word) m <;> exact List.cons_ne_nil _ _

theorem text_eq_of_standsAt (h : standsAt (keyword word) m i = true) :
    m.text = text (m.take i) ++ word ++ text (m.drop (i + word.length)) := by
  obtain ⟨-, -, ⟨rest, hr⟩, -⟩ := standsAt_iff.1 h
  rw [text_take, text_drop, ← List.drop_drop, ← hr, List.drop_left, List.append_assoc, hr,
    List.take_append_drop]

theorem cutsAt_cut (hk : Keyword word) (m : Marked) :
    CutsAt word (m.places (keyword word)) m.text ((m.cut word).map text) := by
  refine cut_induction hk (P := fun m ps =>
    CutsAt word (m.places (keyword word)) m.text (ps.map text)) (fun m hn => ?_)
    (fun m i hi hf ih => ?_) m
  · rw [hn]
    exact cutsAt_whole word m.text
  · have hl : (text (m.take i)).length = i := by
      have := le_length_of_any_head? (standsAt_iff.1 hi).1
      simp only [length_text, List.length_take]
      omega
    have hne : (cut word (m.drop (i + word.length))).map text ≠ [] := by
      simpa using cut_ne_nil word _
    have hc := ih.cons hne (text (m.take i))
    rw [hl, ← text_eq_of_standsAt hi] at hc
    rw [places_eq_cons hk hi hf]
    exact hc

end Marked

theorem cutsAt_splitKeyword (hk : Keyword word) (cs : List Char) :
    CutsAt word ((start.mark cs).places (keyword word)) cs (splitKeyword word cs) := by
  have h := Marked.cutsAt_cut hk (start.mark cs)
  rwa [← Marked.splitKeyword_text hk (Marked.alone_mark cs), Marked.text_mark] at h

theorem places_of_mem_splitKeyword (hk : Keyword word) (h : p ∈ splitKeyword word cs) :
    (start.mark p).places (keyword word) = [] := by
  have ha := Marked.alone_mark cs
  have hm := Marked.splitKeyword_text hk ha
  rw [Marked.text_mark] at hm
  rw [hm] at h
  obtain ⟨s, hs, rfl⟩ := List.mem_map.1 h
  rw [Marked.alone_of_mem_cut hk ha s hs]
  exact Marked.lacks_of_mem_cut hk _ s hs

theorem keyword_of_letters (hne : word ≠ []) (h : ∀ c ∈ word, c.isAlpha = true) : Keyword word := by
  refine ⟨hne, fun c hc => ?_⟩
  apply Spelling.isPlain_of_isNameChar
  simp [Spelling.isNameChar, isWordChar, Char.isAlphanum, h c hc]

/-- Cutting at the top level loses nothing and is stable. The pieces of a text between separators
join to the text, each is one piece of its own, and the cuts are at the separators that one scan meets
outside of quotes and parentheses. So it is with a keyword between blanks, though the scan starts
anew behind each cut: joined, the pieces are the text, none holds the keyword, and the cuts are at the
places where it stands in a single scan. -/
theorem cuts_exact (cs : List Char) :
    (∀ sep : Char,
      CutsAt [sep] ((start.mark cs).places (operator [sep])) cs (splitTop sep cs) ∧
        ∀ p ∈ splitTop sep cs, splitTop sep p = [p]) ∧
    ∀ word : List Char, word ≠ [] → (∀ c ∈ word, c.isAlpha = true) →
      CutsAt word ((start.mark cs).places (keyword word)) cs (splitKeyword word cs) ∧
        ∀ p ∈ splitKeyword word cs, (start.mark p).places (keyword word) = [] := by
  refine ⟨fun sep => ⟨Scan.cutsAt_split sep start cs, fun p => splitTop_piece⟩, ?_⟩
  intro word hne hl
  have hk := keyword_of_letters hne hl
  exact ⟨cutsAt_splitKeyword hk cs, fun p => places_of_mem_splitKeyword hk⟩

/-- two keywords share a blank, an escaped quote closes nothing, and one that stays open hides the
rest -/
theorem cuts_exact_unbalanced :
    let cs := "a or or (b or c)) or 'd\\' or e' or 'f or g".toList
    let word := "or".toList
    word ≠ [] ∧ (∀ c ∈ word, c.isAlpha = true) ∧ CutsAt word [2, 5, 18, 32] cs (splitKeyword word cs) ∧
      ∀ p ∈ splitKeyword word cs, (start.mark p).places (keyword word) = [] := by
  intro cs word
  have hne : word ≠ [] := by decide
  have hl : ∀ c ∈ word, c.isAlpha = true := List.all_eq_true.1 (by decide)
  have hp : (start.mark cs).places (keyword word) = [2, 5, 18, 32] := by decide +kernel
  obtain ⟨hc, hn⟩ := (cuts_exact cs).2 word hne hl
  rw [hp] at hc
  exact ⟨hne, hl, hc, hn⟩

end Stencil.Text
