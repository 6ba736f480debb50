import Mathlib.Data.List.Forall2
import Mathlib.Data.List.Induction
import Mathlib.Data.List.TakeWhile
import Stencil.Text.Blank
import Stencil.Text.Search

/-! Blanks and words of texts: what trimming leaves, and where a first mark or a first word is. -/

namespace Stencil

section Lists

variable {α β γ : Type} {R : α → β → Prop} {as : List α} {bs : List β}

theorem forall_mem_of_forall₂ {Q : β → Prop} (h : List.Forall₂ R as bs)
    (hq : ∀ a b, R a b → Q b) : ∀ b ∈ bs, Q b := by
  induction h with
  | nil => simp
  | cons hr _ ih => exact List.forall_mem_cons.2 ⟨hq _ _ hr, ih⟩

theorem map_eq_map_of_forall₂ {f : β → γ} {g : α → γ} (h : List.Forall₂ R as bs)
    (he : ∀ a b, R a b → f b = g a) : bs.map f = as.map g := by
  induction h with
  | nil => rfl
  | cons hr _ ih => rw [List.map_cons, List.map_cons, he _ _ hr, ih]

end Lists

namespace Text

theorem trimStart_of_trim {cs : List Char} (h : trim cs = cs) : trimStart cs = cs := by
  refine (List.dropWhile_suffix isBlank).eq_of_length_le ?_
  have hl := length_trimEnd_le (trimStart cs)
  rwa [← trim, h] at hl

theorem trim_surround {cs : List Char} (h : trim cs = cs) : trim (' ' :: cs ++ [' ']) = cs := by
  have hb : isBlank ' ' = true := by decide
  have hs := trimStart_of_trim h
  have he : trimEnd cs = cs := by rw [trim, hs] at h; exact h
  have hd : trimStart (' ' :: cs ++ [' ']) = trimStart (cs ++ [' ']) := by
    simp [trimStart, hb]
  rw [trim, hd, trimStart, List.dropWhile_append, ← trimStart, hs]
  cases cs with
  | nil => decide
  | cons c cs => simpa [trimEnd, hb] using he

theorem trimEnd_append_blanks {cs blanks : List Char} (hb : ∀ c ∈ blanks, isBlank c = true)
    (hc : ∀ c ∈ cs.getLast?, isBlank c = false) : trimEnd (cs ++ blanks) = cs := by
  have hd : (blanks.reverse ++ cs.reverse).dropWhile isBlank = cs.reverse.dropWhile isBlank :=
    List.dropWhile_append_of_pos fun c h => hb c (List.mem_reverse.1 h)
  rw [trimEnd, List.reverse_append, hd]
  cases cs using List.reverseRecOn with
  | nil => rfl
  | append_singleton cs c =>
    have := hc c (by simp)
    simp [this]

def Blanks (cs : List Char) : Prop := ∀ c ∈ cs, isBlank c = true

instance (cs : List Char) : Decidable (Blanks cs) := List.decidableBAll _ cs

theorem blanks_nil : Blanks [] := fun _ h => by cases h

theorem trimStart_blanks_append {blanks cs : List Char} (hb : Blanks blanks)
    (hc : ∀ c ∈ cs.head?, isBlank c = false) : trimStart (blanks ++ cs) = cs := by
  rw [trimStart, List.dropWhile_append_of_pos hb]
  cases cs with
  | nil => rfl
  | cons c cs => exact List.dropWhile_cons_of_neg (by simp [hc c rfl])

section Words

variable {cs rest blanks : List Char}

theorem takeWhile_append_of_stop {f : Char → Bool} (hw : ∀ c ∈ cs, f c = true)
    (hr : ∀ c ∈ rest.head?, f c = false) : (cs ++ rest).takeWhile f = cs := by
  rw [List.takeWhile_append_of_pos hw]
  cases rest with
  | nil => exact List.append_nil cs
  | cons c rest => simp [hr c rfl]

theorem takeWhile_word (hw : cs.any isBlank = false) (hr : ∀ c ∈ rest.head?, isBlank c = true) :
    (cs ++ rest).takeWhile (!isBlank ·) = cs :=
  takeWhile_append_of_stop (by simpa using hw) fun c hc => by simp [hr c hc]

theorem firstWord_blanks_append (hb : Blanks blanks) (hne : cs ≠ []) (hw : cs.any isBlank = false)
    (hr : ∀ c ∈ rest.head?, isBlank c = true) :
    firstWord (blanks ++ (cs ++ rest)) = (cs, trimStart rest) := by
  have htrim : trimStart (blanks ++ (cs ++ rest)) = cs ++ rest := by
    obtain ⟨c, cs, rfl⟩ := List.exists_cons_of_ne_nil hne
    exact trimStart_blanks_append hb (by rintro d ⟨⟩; exact (Bool.or_eq_false_iff.1 hw).1)
  have htake := takeWhile_word hw hr
  have hdrop : (cs ++ rest).dropWhile (!isBlank ·) = rest := by
    have h := List.takeWhile_append_dropWhile (p := (!isBlank ·)) (l := cs ++ rest)
    rwa [htake, List.append_cancel_left_eq] at h
  rw [firstWord, htrim]
  simp only [htake, hdrop]

end Words

def Padded (cs t : List Char) : Prop := ∃ l r, Blanks l ∧ Blanks r ∧ t = l ++ cs ++ r

theorem Padded.refl (cs : List Char) : Padded cs cs :=
  ⟨[], [], blanks_nil, blanks_nil, (List.append_nil cs).symm⟩

theorem padded_append {blanks : List Char} (h : Blanks blanks) (cs : List Char) :
    Padded cs (cs ++ blanks) :=
  ⟨[], blanks, blanks_nil, h, rfl⟩

theorem padded_prepend {blanks : List Char} (h : Blanks blanks) (cs : List Char) :
    Padded cs (blanks ++ cs) :=
  ⟨blanks, [], h, blanks_nil, (List.append_nil _).symm⟩

def Spaced (cs t : List Char) : Prop :=
  ∃ l r, Blanks l ∧ Blanks r ∧ l ≠ [] ∧ r ≠ [] ∧ t = l ++ cs ++ r

theorem Spaced.padded {cs t : List Char} (h : Spaced cs t) : Padded cs t := by
  obtain ⟨l, r, hl, hr, -, -, rfl⟩ := h
  exact ⟨l, r, hl, hr, rfl⟩

theorem ne_nil_of_padded {cs t : List Char} (hc : cs ≠ []) (h : Padded cs t) : t ≠ [] := by
  obtain ⟨l, r, -, -, rfl⟩ := h
  simp [hc]

/-- A text of something, without a blank at either end. -/
structure Tidy (cs : List Char) : Prop where
  head : ∃ c ∈ cs.head?, isBlank c = false
  last : ∃ c ∈ cs.getLast?, isBlank c = false

theorem Tidy.ne_nil {cs : List Char} (h : Tidy cs) : cs ≠ [] := by
  rintro rfl
  obtain ⟨c, hc, -⟩ := h.head
  cases hc

theorem Tidy.append {as bs : List Char} (ha : Tidy as) (hb : Tidy bs) (s : List Char) :
    Tidy (as ++ s ++ bs) := by
  obtain ⟨c, hc, hcb⟩ := ha.head
  obtain ⟨d, hd, hdb⟩ := hb.last
  refine ⟨⟨c, ?_, hcb⟩, ⟨d, ?_, hdb⟩⟩
  · simp only [Option.mem_def] at hc ⊢
    simp [List.head?_append, hc]
  · simp only [Option.mem_def] at hd ⊢
    simp [List.getLast?_append, hd]

/-- A text without a blank at either end, though it may be empty. -/
structure IsTrimmed (cs : List Char) : Prop where
  head : ∀ c ∈ cs.head?, isBlank c = false
  last : ∀ c ∈ cs.getLast?, isBlank c = false

theorem IsTrimmed.trim_of_padded {cs t : List Char} (h : IsTrimmed cs) (ht : Padded cs t) :
    trim t = cs := by
  obtain ⟨l, r, hl, hr, rfl⟩ := ht
  by_cases hc : cs = []
  · -- nothing but blanks
    subst hc
    have hb : ∀ c ∈ l ++ [] ++ r, isBlank c = true := by
      rw [List.append_nil]
      exact List.forall_mem_append.2 ⟨hl, hr⟩
    rw [trim, trimStart, List.dropWhile_eq_nil_iff.2 hb]
    rfl
  · have hs : trimStart (l ++ cs ++ r) = cs ++ r := by
      rw [List.append_assoc]
      refine trimStart_blanks_append hl fun c hm => h.head c ?_
      rwa [List.head?_append_of_ne_nil _ hc] at hm
    rw [trim, hs]
    exact trimEnd_append_blanks hr h.last

theorem Tidy.isTrimmed {cs : List Char} (h : Tidy cs) : IsTrimmed cs := by
  obtain ⟨c, hc, hcb⟩ := h.head
  obtain ⟨d, hd, hdb⟩ := h.last
  constructor
  · intro e he
    rw [Option.mem_unique he hc]
    exact hcb
  · intro e he
    rw [Option.mem_unique he hd]
    exact hdb

theorem Tidy.trim_of_padded {cs t : List Char} (h : Tidy cs) (ht : Padded cs t) : trim t = cs :=
  h.isTrimmed.trim_of_padded ht

theorem Tidy.trim_eq {cs : List Char} (h : Tidy cs) : trim cs = cs :=
  h.trim_of_padded (Padded.refl cs)

/-- The first text is the second without the blanks at its end. -/
structure Shorn (cs t : List Char) : Prop where
  blanks : ∃ blanks, Blanks blanks ∧ t = cs ++ blanks
  last : ∀ c ∈ cs.getLast?, isBlank c = false

theorem shorn_trimEnd (t : List Char) : Shorn (trimEnd t) t := by
  refine ⟨⟨(t.reverse.takeWhile isBlank).reverse, ?_, ?_⟩, fun c hc => ?_⟩
  · exact fun c hc => List.mem_takeWhile_imp (List.mem_reverse.1 hc)
  · rw [trimEnd, ← List.reverse_append, List.takeWhile_append_dropWhile, List.reverse_reverse]
  · have h := List.head?_dropWhile_not isBlank t.reverse
    rw [trimEnd, List.getLast?_reverse] at hc
    rw [Option.mem_def.1 hc] at h
    simpa using h

theorem trimEnd_eq_iff {cs t : List Char} : trimEnd t = cs ↔ Shorn cs t := by
  constructor
  · rintro rfl
    exact shorn_trimEnd t
  · rintro ⟨⟨blanks, hb, rfl⟩, hl⟩
    exact trimEnd_append_blanks hb hl

theorem padded_trim (t : List Char) : Padded (trim t) t := by
  obtain ⟨⟨r, hr, he⟩, -⟩ := shorn_trimEnd (trimStart t)
  refine ⟨t.takeWhile isBlank, r, fun _ hc => List.mem_takeWhile_imp hc, hr, ?_⟩
  rw [List.append_assoc, trim, ← he, trimStart, List.takeWhile_append_dropWhile]

theorem isTrimmed_trim (t : List Char) : IsTrimmed (trim t) := by
  obtain ⟨⟨r, -, he⟩, hl⟩ := shorn_trimEnd (trimStart t)
  refine ⟨fun c hc => ?_, hl⟩
  have h := List.head?_dropWhile_not isBlank t
  have hs : (trimStart t).head? = some c := by
    rw [he, List.head?_append, ← trim, Option.mem_def.1 hc]
    rfl
  rw [← trimStart, hs] at h
  simpa using h

theorem trim_eq_iff {cs t : List Char} : trim t = cs ↔ Padded cs t ∧ IsTrimmed cs := by
  constructor
  · rintro rfl
    exact ⟨padded_trim t, isTrimmed_trim t⟩
  · rintro ⟨hp, ht⟩
    exact ht.trim_of_padded hp

theorem map_trim_of_padded {ps qs : List (List Char)} (h : List.Forall₂ Padded ps qs)
    (hp : ∀ p ∈ ps, Tidy p) : qs.map trim = ps := by
  rw [map_eq_map_of_forall₂ ((List.forall₂_and_left _ _).2 ⟨hp, h⟩) fun _ _ h => h.1.trim_of_padded h.2]
  exact List.map_id ps

/-- Texts one behind the other with separators between them. -/
inductive Joined (separates : List Char → Prop) : List (List Char) → List Char → Prop
  | one (p : List Char) : Joined separates [p] p
  | cons (p : List Char) {s t : List Char} {ps : List (List Char)} (sep : separates s)
      (rest : Joined separates ps t) : Joined separates (p :: ps) (p ++ s ++ t)

theorem Joined.tidy {separates : List Char → Prop} {ps : List (List Char)} {t : List Char}
    (h : Joined separates ps t) (hp : ∀ p ∈ ps, Tidy p) : Tidy t := by
  induction h with
  | one p => exact hp p (by simp)
  | cons p _ _ ih =>
    rw [List.forall_mem_cons] at hp
    exact hp.1.append (ih hp.2) _

/-- A word that can stand in a tag: without blanks and without the mark that ends it. -/
def Solid (w : List Char) : Prop := w ≠ [] ∧ w.all (fun c => !isBlank c && c != '%') = true

instance (w : List Char) : Decidable (Solid w) := inferInstanceAs (Decidable (_ ∧ _))

theorem Solid.isBlank {w : List Char} (h : Solid w) : ∀ c ∈ w, isBlank c = false := by
  intro c hc
  have := List.all_eq_true.1 h.2 c hc
  simp only [Bool.and_eq_true, Bool.not_eq_true'] at this
  exact this.1

theorem Solid.not_mem {w : List Char} (h : Solid w) : '%' ∉ w := by
  intro hc
  have := List.all_eq_true.1 h.2 _ hc
  simp at this

theorem trimStart_append {w : List Char} (h : Solid w) (rest : List Char) :
    trimStart (w ++ rest) = w ++ rest := by
  cases w with
  | nil => exact absurd rfl h.1
  | cons c cs => simp [trimStart, h.isBlank c]

theorem trim_of_solid {w : List Char} (h : Solid w) : trim w = w := by
  have hd (w : List Char) (hb : ∀ c ∈ w, isBlank c = false) : w.dropWhile isBlank = w := by
    cases w with
    | nil => rfl
    | cons c cs => simp [hb c]
  rw [trim, trimStart, hd w h.isBlank, trimEnd, hd w.reverse (by simpa using h.isBlank),
    List.reverse_reverse]

theorem firstWord_append {w rest : List Char} (h : Solid w) (hr : trimStart rest = rest) :
    firstWord (w ++ ' ' :: rest) = (w, rest) := by
  have hs : isBlank ' ' = true := by decide
  have hw : w.any isBlank = false := by simpa using h.isBlank
  have hf : firstWord ([] ++ (w ++ ' ' :: rest)) = (w, trimStart (' ' :: rest)) :=
    firstWord_blanks_append blanks_nil h.1 hw (by rintro c ⟨⟩; exact hs)
  rw [trimStart, List.dropWhile_cons_of_pos hs, ← trimStart, hr] at hf
  exact hf

/-- A word character is none of the blanks, which lie between the ASCII ranges or above them. -/
theorem isBlank_of_isWordChar {c : Char} (h : isWordChar c = true) : isBlank c = false := by
  change (decide ('A'.val ≤ c.val ∧ c.val ≤ 'Z'.val) || (decide ('a'.val ≤ c.val) &&
    decide (c.val ≤ 'z'.val)) || (decide ('0'.val ≤ c.val) && decide (c.val ≤ '9'.val)) ||
      c == '_') = true at h
  simp only [Bool.or_eq_true, Bool.and_eq_true, decide_eq_true_eq, beq_iff_eq,
    UInt32.le_iff_toNat_le] at h
  rcases h with h | rfl
  · simp only [isBlank, Char.toNat, Bool.or_eq_false_iff, Bool.and_eq_false_iff,
      decide_eq_false_iff_not, beq_eq_false_iff_ne]
    have hv : c.val.toNat = c.toNat := rfl
    simp at h
    omega
  · decide

theorem isDigit_of_isAlpha {c : Char} (h : c.isAlpha = true) : c.isDigit = false := by
  change (decide ('A'.val ≤ c.val ∧ c.val ≤ 'Z'.val) ||
    (decide ('a'.val ≤ c.val) && decide (c.val ≤ 'z'.val))) = true at h
  simp only [Bool.or_eq_true, Bool.and_eq_true, decide_eq_true_eq, UInt32.le_iff_toNat_le] at h
  by_contra hd
  rw [Bool.not_eq_false, Char.isDigit_iff_toNat] at hd
  have hv : c.val.toNat = c.toNat := rfl
  have hA : 'A'.val.toNat = 65 := rfl
  have ha : 'a'.val.toNat = 97 := rfl
  have h9 : '9'.toNat = 57 := rfl
  omega

theorem solid_of_isWord {cs : List Char} (h : isWord cs = true) : Solid cs := by
  simp only [isWord, Bool.and_eq_true, Bool.not_eq_true', List.isEmpty_eq_false_iff,
    List.all_eq_true] at h
  refine ⟨h.1, List.all_eq_true.2 fun c hc => ?_⟩
  have hp : c ≠ '%' := by
    rintro rfl
    exact absurd (h.2 _ hc) (by decide)
  simp [isBlank_of_isWordChar (h.2 c hc), hp]

theorem cutAt?_singleton {c : Char} {cs : List Char} (h : c ∉ cs) (rest : List Char) :
    cutAt? [c] (cs ++ c :: rest) = some (cs, rest) := by
  induction cs with
  | nil => simp [cutAt?]
  | cons d ds ih =>
    have hd : c ≠ d := fun hd => h (by simp [hd])
    simp [cutAt?, hd, ih (fun hm => h (List.mem_cons_of_mem _ hm))]

theorem cutAt?_singleton_eq_none {c : Char} {cs : List Char} (h : c ∉ cs) : cutAt? [c] cs = none := by
  induction cs with
  | nil => simp [cutAt?]
  | cons d ds ih =>
    have hd : c ≠ d := fun hd => h (by simp [hd])
    simp [cutAt?, hd, ih (fun hm => h (List.mem_cons_of_mem _ hm))]

theorem mem_intercalate {sep : Char} {ps : List (List Char)} {c : Char}
    (h : c ∈ [sep].intercalate ps) : c = sep ∨ ∃ p ∈ ps, c ∈ p := by
  induction ps with
  | nil => cases h
  | cons p ps ih =>
    cases ps with
    | nil =>
      rw [List.intercalate_singleton] at h
      exact .inr ⟨p, List.mem_cons_self, h⟩
    | cons p' ps =>
      rw [List.intercalate_cons_cons, List.append_assoc, List.mem_append, List.mem_append,
        List.mem_singleton] at h
      rcases h with h | h | h
      · exact .inr ⟨p, List.mem_cons_self, h⟩
      · exact .inl h
      · exact (ih h).imp id fun ⟨q, hq, hc⟩ => ⟨q, List.mem_cons_of_mem _ hq, hc⟩

theorem pieces_append {sep : Char} {p : List Char} (h : sep ∉ p) (rest : List Char) :
    pieces sep (p ++ rest) = (pieces sep rest).modifyHead (p ++ ·) := by
  induction p with
  | nil =>
    have hi : (fun cs : List Char => [] ++ cs) = id := rfl
    rw [hi, List.modifyHead_id]
    rfl
  | cons c p ih =>
    simp only [List.mem_cons, not_or] at h
    have hc : ¬ (c == sep) = true := by simpa using Ne.symm h.1
    rw [List.cons_append, pieces, if_neg hc, ih h.2, List.modifyHead_modifyHead]
    rfl

theorem pieces_intercalate {sep : Char} {ps : List (List Char)} (hne : ps ≠ [])
    (h : ∀ p ∈ ps, sep ∉ p) : pieces sep ([sep].intercalate ps) = ps := by
  induction ps with
  | nil => exact absurd rfl hne
  | cons p ps ih =>
    rw [List.forall_mem_cons] at h
    cases ps with
    | nil =>
      have hs := pieces_append h.1 []
      rw [List.append_nil] at hs
      simpa [pieces] using hs
    | cons p' ps =>
      rw [List.intercalate_cons_cons, List.append_assoc, pieces_append h.1, List.singleton_append,
        pieces, if_pos (beq_self_eq_true sep), ih (List.cons_ne_nil _ _) h.2]
      simp

theorem cutAt?_cons (a b c : Char) (cs : List Char) :
    cutAt? [a, b] (c :: cs) =
      if c = a ∧ cs.head? = some b then some ([], cs.drop 1)
      else (cutAt? [a, b] cs).map fun (before, behind) => (c :: before, behind) := by
  rw [cutAt?]
  cases cs with
  | nil => simp
  | cons d ds => simp [eq_comm (a := a), eq_comm (a := b)]

/-- A mark that is not in a text is first found behind it, unless its start is there. -/
theorem cutAt?_append {a b : Char} {cs : List Char} (h : cutAt? [a, b] cs = none)
    (hl : cs.getLast? ≠ some a) (rest : List Char) :
    cutAt? [a, b] (cs ++ a :: b :: rest) = some (cs, rest) := by
  induction cs with
  | nil => simp [cutAt?_cons]
  | cons c cs ih =>
    rw [cutAt?_cons] at h
    split at h
    · simp at h
    · rename_i hc
      rw [Option.map_eq_none_iff] at h
      rw [List.cons_append, cutAt?_cons]
      cases cs with
      | nil =>
        have hca : c ≠ a := by simpa using hl
        simp [hca, cutAt?_cons]
      | cons d ds =>
        rw [ih h (by simpa using hl)]
        simpa using hc

theorem cutAt?_surround {a b : Char} {cs : List Char} (ha : a ≠ ' ') (hb : b ≠ ' ')
    (h : cutAt? [a, b] cs = none) : cutAt? [a, b] (' ' :: cs ++ [' ']) = none := by
  have hn (ds : List Char) (hd : cutAt? [a, b] ds = none) :
      cutAt? [a, b] (ds ++ [' ']) = none := by
    induction ds with
    | nil => simp [cutAt?_cons, cutAt?]
    | cons d ds ih =>
      rw [cutAt?_cons] at hd
      split at hd
      · simp at hd
      · rename_i hc
        rw [Option.map_eq_none_iff] at hd
        rw [List.cons_append, cutAt?_cons, ih hd]
        cases ds with
        | nil => simp [hb.symm]
        | cons e es => simpa using hc
  rw [List.cons_append, cutAt?_cons, hn cs h]
  simp [ha.symm]

end Text

end Stencil
