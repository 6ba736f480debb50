import Stencil.Proofs.Exact

/-! The places of tokens. Line, column and offset are counted on from one character to the next, and
yet all three say no more than the text before the place does, whatever was scanned up to there:
texts, blocks, comments as a whole or blanks that a dash has trimmed. -/

namespace Stencil.Markup

open String (utf8Len)

namespace Position

/-- Is a place the one behind a text? Its offset counts the bytes of the text, its line the line
feeds, and its column the characters behind the last line feed, or all if there is none. -/
structure IsBehind (before : List Char) (p : Position) : Prop where
  offset : p.offset = utf8Len before
  line : p.line = 1 + before.count '\n'
  column : ∃ lines current, before = lines ++ current ∧ (∀ c ∈ lines.getLast?, c = '\n') ∧
    '\n' ∉ current ∧ p.column = current.length

variable {before : List Char} {p : Position}

theorem after_concat (p : Position) (cs : List Char) (c : Char) :
    p.after (cs ++ [c]) = (p.after cs).next c := after_append p cs [c]

theorem IsBehind.next (h : p.IsBehind before) (c : Char) : (p.next c).IsBehind (before ++ [c]) := by
  obtain ⟨ho, hl, lines, current, he, hn, hc, hk⟩ := h
  have hb : utf8Len (before ++ [c]) = utf8Len before + c.utf8Size := by simp
  unfold Position.next
  by_cases hf : c = '\n'
  · subst hf
    refine ⟨?_, ?_, before ++ ['\n'], [], (List.append_nil _).symm, by simp, by simp, rfl⟩
    · rw [hb, ← ho]
      rfl
    · simp [hl, Nat.add_assoc]
  · rw [if_neg (by simpa using hf)]
    refine ⟨?_, ?_, lines, current ++ [c], by simp [he], hn, ?_, by simp [hk]⟩
    · rw [hb, ← ho]
    · simp [hl, hf]
    · simp [hc, Ne.symm hf]

theorem isBehind_start_after (before : List Char) : (start.after before).IsBehind before := by
  induction before using List.reverseRecOn with
  | nil => exact ⟨rfl, rfl, [], [], rfl, by simp, by simp, rfl⟩
  | append_singleton cs c ih =>
    rw [after_concat]
    exact ih.next c

theorem length_le_utf8Len (cs : List Char) : cs.length ≤ utf8Len cs := by
  induction cs with
  | nil => exact Nat.le_refl 0
  | cons c cs ih =>
    have := c.utf8Size_pos
    rw [List.length_cons, String.utf8Len_cons]
    omega

theorem IsBehind.le_offset (h : p.IsBehind before) :
    p.column ≤ p.offset ∧ p.line ≤ p.offset + 1 := by
  obtain ⟨ho, hl, lines, current, he, -, -, hk⟩ := h
  have hb := length_le_utf8Len before
  constructor
  · have : current.length ≤ before.length := by simp [he]
    omega
  · have := List.count_le_length (a := '\n') (l := before)
    omega

/-- Are the three numbers of a place below a bound? -/
def Fits (n : Nat) (p : Position) : Prop := p.line < n ∧ p.column < n ∧ p.offset < n

/-- The line alone may reach the bound, and only behind line feeds that fill the source. -/
theorem IsBehind.fits {rest : List Char} {n : Nat} (h : p.IsBehind before)
    (hn : utf8Len (before ++ rest) < n) (hs : before ++ rest ≠ List.replicate (n - 1) '\n') :
    p.Fits n := by
  obtain ⟨hc, hl⟩ := h.le_offset
  have ho := h.offset
  have hb : utf8Len (before ++ rest) = utf8Len before + utf8Len rest := by simp
  refine ⟨Nat.lt_of_le_of_ne (by omega) fun he => hs ?_, by omega, by omega⟩
  have hcount := h.line
  have hlen := length_le_utf8Len before
  have hle := List.count_le_length (a := '\n') (l := before)
  obtain rfl : rest = [] := String.utf8Len_eq_zero.1 (by omega)
  rw [List.append_nil, List.eq_replicate_iff]
  have hall : before.count '\n' = before.length := by omega
  exact ⟨by omega, fun c hc => (List.count_eq_length.1 hall c hc).symm⟩

theorem start_after_lineFeeds (n : Nat) :
    start.after (List.replicate n '\n') = ⟨n + 1, 0, n⟩ := by
  induction n with
  | zero => rfl
  | succ n ih =>
    rw [List.replicate_succ', after_concat, ih]
    rfl

end Position

theorem Block.find?_lineFeeds (n : Nat) : find? (List.replicate n '\n') = none := by
  induction n with
  | zero => rfl
  | succ n ih =>
    rw [List.replicate_succ, find?, ih]
    rfl

namespace Token

variable {source : List Char} {n : Nat}

theorem isBehind_of_mem_scan {t : Token × Span} (ht : t ∈ scan source) :
    ∃ before cs behind, source = before ++ (cs ++ behind) ∧ t.1.Stands before cs behind ∧
      t.2.first.IsBehind before ∧ t.2.last.IsBehind (before ++ cs) := by
  have h : Covers [] source (scan source) := covers_scanFrom .start rfl
  obtain ⟨before, cs, behind, he, hp, hs⟩ := h.exists_span t ht
  refine ⟨before, cs, behind, by rwa [List.nil_append] at he, hs, ?_, ?_⟩
  · rw [hp]
    exact Position.isBehind_start_after before
  · rw [hp]
    exact Position.isBehind_start_after (before ++ cs)

theorem scan_lineFeeds (hn : n ≠ 0) : scan (List.replicate n '\n') =
    [(text (List.replicate n '\n'), ⟨Position.start, ⟨n + 1, 0, n⟩⟩)] := by
  have hne : List.replicate n '\n' ≠ [] := by simpa using hn
  rw [scan, scanFrom_of_none (Block.find?_lineFeeds n) hne, Position.start_after_lineFeeds]

/-- Of the sources of less than `n` bytes only one has a place whose numbers are not all below `n`:
the one of `n - 1` line feeds, which ends on line `n`. -/
theorem fits_scan_iff (h1 : 1 < n) (h : utf8Len source < n) :
    (∀ t ∈ scan source, t.2.first.Fits n ∧ t.2.last.Fits n) ↔
      source ≠ List.replicate (n - 1) '\n' := by
  constructor
  · rintro hf rfl
    rw [scan_lineFeeds (by omega)] at hf
    obtain ⟨-, hl, -⟩ := hf _ List.mem_cons_self
    simp only at hl
    omega
  · intro hs t ht
    obtain ⟨before, cs, behind, he, -, hf, hl⟩ := isBehind_of_mem_scan ht
    constructor
    · exact hf.fits (he ▸ h) (he ▸ hs)
    · rw [← List.append_assoc] at he
      exact hl.fits (he ▸ h) (he ▸ hs)

/-- Numbers of 32 bits hold the places of all sources of less than 2 ^ 32 - 1 bytes, and with one
byte more of all but one: 2 ^ 32 - 1 line feeds. -/
theorem fits_scan :
    (∀ source, utf8Len source < 2 ^ 32 - 1 →
      ∀ t ∈ scan source, t.2.first.Fits (2 ^ 32) ∧ t.2.last.Fits (2 ^ 32)) ∧
    ∀ source, utf8Len source = 2 ^ 32 - 1 →
      ((∀ t ∈ scan source, t.2.first.Fits (2 ^ 32) ∧ t.2.last.Fits (2 ^ 32)) ↔
        source ≠ List.replicate (2 ^ 32 - 1) '\n') := by
  refine ⟨fun source h => ?_, fun source h => fits_scan_iff (by omega) (by omega)⟩
  refine (fits_scan_iff (by omega) (by omega)).2 ?_
  rintro rfl
  have := Position.length_le_utf8Len (List.replicate (2 ^ 32 - 1) '\n')
  rw [List.length_replicate] at this
  omega

end Token

end Stencil.Markup
