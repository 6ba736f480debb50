import Stencil.Proofs.Moves

/-! How deep trees are. No block is opened inside as many open blocks as there may be, so that
whatever row of tokens is read, no path down its tree meets more blocks than that. -/

namespace Stencil

open Markup (Span Token)

namespace Stmt

/-- A path down from a row of statements: one of them, then one of those right inside it, and so
on. -/
inductive Path : List Stmt → List Stmt → Prop
  | nil {ss : List Stmt} : Path ss []
  | cons {ss path : List Stmt} {s : Stmt} : s ∈ ss → Path s.inner path → Path ss (s :: path)

/-- Does every path down meet at most `k` choices and loops? -/
def Shallow (k : Nat) (ss : List Stmt) : Prop :=
  ∀ path, Path ss path → path.countP (!·.isLeaf) ≤ k

variable {k k' : Nat} {as bs ss : List Stmt} {s : Stmt}

theorem Shallow.mono (h : Shallow k ss) (hk : k ≤ k') : Shallow k' ss :=
  fun path hp => Nat.le_trans (h path hp) hk

theorem Shallow.of_subset (h : Shallow k ss) (hs : as ⊆ ss) : Shallow k as := by
  intro path hp
  cases hp with
  | nil => exact Nat.zero_le k
  | cons hm hp => exact h _ (.cons (hs hm) hp)

theorem shallow_append (ha : Shallow k as) (hb : Shallow k bs) : Shallow k (as ++ bs) := by
  intro path hp
  cases hp with
  | nil => exact Nat.zero_le k
  | cons hm hp =>
    rcases List.mem_append.1 hm with hm | hm
    · exact ha _ (.cons hm hp)
    · exact hb _ (.cons hm hp)

theorem shallow_nil (k : Nat) : Shallow k [] := by
  intro path hp
  cases hp with
  | nil => exact Nat.zero_le k
  | cons hm _ => cases hm

theorem shallow_leaf (k : Nat) (h : s.isLeaf = true) : Shallow k [s] := by
  intro path hp
  cases hp with
  | nil => exact Nat.zero_le k
  | cons hm hp =>
    -- the path ends with the leaf, since nothing stands inside it
    obtain rfl := List.mem_singleton.1 hm
    rw [inner_of_isLeaf h] at hp
    have := shallow_nil k _ hp
    simpa [h] using this

theorem shallow_block (h : Shallow k s.inner) : Shallow (k + 1) [s] := by
  intro path hp
  cases hp with
  | nil => exact Nat.zero_le _
  | cons hm hp =>
    obtain rfl := List.mem_singleton.1 hm
    have := h _ hp
    rw [List.countP_cons]
    split <;> omega

end Stmt

open Stmt (Shallow Path)

namespace Frame

variable {f : Frame} {k : Nat}

theorem shallow_finish (h : Shallow k f.statements) (last : Span) :
    Shallow (k + 1) (f.finish last) := by
  cases hs : f.part.start? with
  | none =>
    rw [f.finish_of_none hs]
    exact h.mono (Nat.le_succ k)
  | some start =>
    obtain ⟨s, he, -, -, hi⟩ := f.finish_of_some hs last
    rw [he]
    refine Stmt.shallow_append ?_ (Stmt.shallow_block ?_)
    · exact (h.of_subset fun t ht => by simp [statements, ht]).mono (Nat.le_succ k)
    · rw [hi]
      exact h.of_subset fun t ht => by
        rw [statements, List.append_assoc]
        exact List.mem_append_right _ ht

theorem shallow_push {ss : List Stmt} (h : Shallow k f.statements) (hs : Shallow k ss) :
    Shallow k { f with body := ss.reverse ++ f.body }.statements := by
  rw [statements_push]
  exact Stmt.shallow_append h hs

end Frame

namespace Builder

/-- What stands in the innermost block is at most `k` deep, what stands in the block around it at
most `k + 1`, and so on. -/
def Within (root : List Stmt) : Nat → List Frame → Prop
  | k, [] => Shallow k root
  | k, f :: fs => Shallow k f.statements ∧ Within root (k + 1) fs

/-- The blocks that are open, and as many around what stands in them as they leave room for, are
together as many as there may be. -/
def Limited (m : List Stmt × List Frame) : Prop :=
  ∃ k, k + m.2.length = maxNesting ∧ Within m.1 k m.2

variable {b : Builder} {span : Span} {m : List Stmt × List Frame} {k : Nat}

theorem Limited.length_le (h : Limited m) : m.2.length ≤ maxNesting := by
  obtain ⟨k, hk, -⟩ := h
  omega

theorem within_push {ss : List Stmt} (h : Within b.root k b.frames) (hs : Shallow k ss) :
    Within (b.push ss).root k (b.push ss).frames := by
  obtain ⟨root, frames, skipping, cases, last⟩ := b
  cases frames with
  | nil =>
    have h : Shallow k root := h
    exact Stmt.shallow_append (hs.of_subset fun t ht => List.mem_reverse.1 ht) h
  | cons f fs => exact ⟨Frame.shallow_push h.1 hs, h.2⟩

theorem length_frames_push (b : Builder) (ss : List Stmt) :
    (b.push ss).frames.length = b.frames.length := by
  obtain ⟨root, frames, skipping, cases, last⟩ := b
  cases frames <;> rfl

theorem limited_moves (h : b.Moves span m) (hb : Limited b.made) : Limited m := by
  obtain ⟨k, hk, hw⟩ := hb
  cases h with
  | stay => exact ⟨k, hk, hw⟩
  | @leaf s hs _ =>
    refine ⟨k, ?_, within_push hw (Stmt.shallow_leaf k hs)⟩
    rw [← hk]
    exact congrArg (k + ·) (length_frames_push b [s])
  | @enter part body hr ho =>
    -- one block more leaves room for one less
    have hf : k + b.frames.length = maxNesting := hk
    obtain ⟨k, rfl⟩ := Nat.exists_eq_succ_of_ne_zero (n := k) (by omega)
    refine ⟨k, by simp only [List.length_cons]; omega, ?_, hw⟩
    rw [Frame.statements, ho.before, ho.done]
    rcases ho.start with ⟨-, rfl⟩ | ⟨-, s, rfl, hs, -⟩
    · exact Stmt.shallow_nil k
    · exact Stmt.shallow_leaf k hs
  | @turn f fs part hf ht =>
    have hk : k + b.frames.length = maxNesting := hk
    have hw : Within b.root k b.frames := hw
    rw [hf] at hk hw
    refine ⟨k, hk, ?_, hw.2⟩
    rw [f.statements_turn ht]
    exact hw.1
  | @leave f fs hf =>
    have hk : k + b.frames.length = maxNesting := hk
    have hw : Within b.root k b.frames := hw
    rw [hf] at hk hw
    refine ⟨k + 1, ?_, within_push hw.2 (f.shallow_finish hw.1 span)⟩
    have hl := length_frames_push { b with frames := fs } (f.finish span)
    rw [List.length_cons] at hk
    simp only [made, hl]
    omega

theorem limited_foldl_step (ts : List (Token × Span)) (h : Limited b.made) :
    Limited (ts.foldl step b).made := by
  induction ts generalizing b with
  | nil => exact h
  | cons t ts ih => exact ih (limited_moves (moves_step b t) h)

theorem limited_leaveAll (h : Limited b.made) : Limited b.leaveAll.made :=
  leaveAll_induction (P := fun c => Limited c.made) (fun _ hc => limited_moves (moves_leave rfl) hc) h

theorem limited_empty : Limited empty.made := ⟨maxNesting, rfl, Stmt.shallow_nil _⟩

end Builder

namespace Template

/-- However its blocks are closed, left open or nested too deep, a source makes a tree in which no
path meets more than 150 choices and loops. While it is read no more blocks than that are open, and
at its end none is. -/
theorem countP_path_le (source : String) :
    (∀ path, Path (parse source).children path → path.countP (!·.isLeaf) ≤ 150) ∧
      (∀ n, (((Token.scan source.toList).take n).foldl Builder.step .empty).frames.length ≤ 150) ∧
      ((Token.scan source.toList).foldl Builder.step .empty).leaveAll.frames = [] := by
  have hl (ts : List (Token × Span)) : Builder.Limited (ts.foldl Builder.step .empty).made :=
    Builder.limited_foldl_step ts Builder.limited_empty
  have hf := Builder.frames_leaveAll ((Token.scan source.toList).foldl Builder.step .empty)
  refine ⟨?_, fun n => (hl _).length_le, hf⟩
  obtain ⟨k, hk, hw⟩ := Builder.limited_leaveAll (hl (Token.scan source.toList))
  simp only [Builder.made] at hk hw
  rw [hf] at hk hw
  -- outside of all blocks there is room for all of them
  obtain rfl : k = maxNesting := hk
  have hr : Shallow maxNesting _ := hw
  exact hr.of_subset fun t ht => List.mem_reverse.1 ht

/-- a loop in a branch of a case that a tag of another block closes and the end of the source ends -/
theorem countP_path_le_malformed :
    let source := "{% case x %}{% when 1 %}{% for i in x %}{% endcase %}a{% endif %}b"
    ∃ path, Path (parse source).children path ∧ path.countP (!·.isLeaf) = 2 ∧
      path.countP (!·.isLeaf) ≤ 150 := by
  intro source
  have h : ((parse source).children.any fun s => !s.isLeaf && s.inner.any fun t => !t.isLeaf) =
      true := by
    decide +kernel
  simp only [List.any_eq_true, Bool.and_eq_true] at h
  obtain ⟨s, hs, hl, t, ht, hl'⟩ := h
  have hp : Path (parse source).children [s, t] := .cons hs (.cons ht .nil)
  exact ⟨[s, t], hp, by simp [hl, hl'], (countP_path_le source).1 _ hp⟩

end Template

end Stencil
