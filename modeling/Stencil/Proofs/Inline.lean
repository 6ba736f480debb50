import Stencil.Proofs.Mirror

/-! Includes in place. Inside an include without parameters `include` is an empty map, and what it
was before is put back behind it. If the source of the include has no use for `include`, its
statements may as well run in place of the tag: at each step the contexts of the two runs differ in
`include` alone, and that difference is gone at the end. -/

namespace Stencil

open Calendar (Instant)
open Context (Carries)
open Render (Mirrors)

namespace Context

variable {k : String}

/-- Two contexts are the same, but the variable may have another place in them. -/
structure Moved (k : String) (a b : Context) : Prop where
  others : a.erase k = b.erase k
  value : a.get? k = b.get? k

theorem Moved.get? {a b : Context} (h : Moved k a b) (k' : String) : a.get? k' = b.get? k' := by
  by_cases hk : k' = k
  · rw [hk, h.value]
  · have he := congrArg (·.get? k') h.others
    simpa only [get?_erase, if_neg hk] using he

theorem carries_moved (k name : String) : Carries (Moved k) name := by
  refine .of_get? (fun h => h.get? name) (fun {a b} h v => ⟨?_, ?_⟩) fun {a b} h => ⟨?_, ?_⟩
  · by_cases hk : k = name
    · rw [← hk, erase_insert, erase_insert, h.others]
    · rw [erase_insert_comm a hk, erase_insert_comm b hk, h.others]
  · rw [get?_insert, get?_insert, h.value]
  · rw [erase_comm, erase_comm b, h.others]
  · rw [get?_erase, get?_erase, h.value]

/-- The contexts inside an include without parameters and in place of it: in place, `include` is as
it will be when it is put back. -/
structure Inside (previous : Option Value) (a b : Context) : Prop where
  bound : a.get? "include" = some (Stmt.parameterValue [])
  place : b = a.restore "include" previous

variable {previous : Option Value} {a b c d : Context}

theorem inside_insert (h : a.get? "include" ≠ some .nil) :
    Inside (a.get? "include") (a.insert "include" (Stmt.parameterValue [])) a := by
  constructor
  · rw [get?_insert, if_pos rfl]
  · rw [restore_insert, restore_get? h]

theorem Inside.get? (h : Inside previous a b) (hk : k ≠ "include") : a.get? k = b.get? k := by
  rw [h.place, get?_restore, if_neg hk]

theorem Inside.get?_include (h : Inside previous a b) (hp : previous ≠ some .nil) :
    b.get? "include" = previous := by
  rw [h.place, get?_restore, if_pos rfl]
  rcases previous with _ | v
  · rfl
  · cases v with
    | nil => exact absurd rfl hp
    | _ => rfl

theorem carries_inside (previous : Option Value) (hk : k ≠ "include") :
    Carries (Inside previous) k := by
  refine .of_get? (fun h => h.get? hk) (fun {a b} h v => ⟨?_, ?_⟩) fun {a b} h => ⟨?_, ?_⟩
  · rw [get?_insert, if_neg (Ne.symm hk), h.bound]
  · have hb : (a.get? "include").isSome := by rw [h.bound]; rfl
    rw [restore_insert_comm (Ne.symm hk) hb, ← h.place]
  · rw [get?_erase, if_neg (Ne.symm hk), h.bound]
  · rw [restore_erase_comm a (Ne.symm hk), ← h.place]

theorem Inside.restore (h : Inside previous a b) (hp : previous ≠ some .nil)
    (hs : c.restore "include" previous = d.restore "include" previous) :
    Inside previous (c.restore "include" (a.get? "include"))
      (d.restore "include" (b.get? "include")) := by
  rw [h.bound, h.get?_include hp]
  constructor
  · rw [get?_restore, if_pos rfl]
    rfl
  · have hc : (c.restore "include" (some (Stmt.parameterValue []))).restore "include" previous =
        c.restore "include" previous := restore_insert c "include" previous _
    rw [hc, hs]

end Context

open Context (Inside Moved)

namespace Stmt

theorem runInclusion_eq (params : List (String × String)) (run : Render String) (ctx : Context) :
    runInclusion params run ctx =
      ((run (ctx.insert "include" (parameterValue params))).1,
        (run (ctx.insert "include" (parameterValue params))).2.restore "include"
          (ctx.get? "include")) := rfl

end Stmt

namespace Environment

variable {env : Environment} {now : Instant} {previous : Option Value}

/-- An include further in runs in place, one level further out, as it does inside. -/
theorem mirrors_inclusion (hp : previous ≠ some .nil) (left : Nat) (name : String)
    (params : List (String × String)) :
    Mirrors (fun _ => False) (Inside previous)
      (Stmt.runInclusion params (env.load now left name))
      (Stmt.runInclusion params (env.load now (left + 1) name)) := by
  rcases previous with _ | v
  · -- without an entry of its own in place, `include` is bound at the end there
    have hl : Mirrors (fun _ => False) (Moved "include") (env.load now left name)
        (env.load now (left + 1) name) :=
      mirrors_load (Context.carries_moved _ _) (Context.carries_moved _ _)
        (fun _ _ _ s _ => ⟨fun k _ _ _ h => h.get? k, fun k _ => Context.carries_moved _ k⟩)
        (fun _ _ => id) (.inr id) left name
    apply Stmt.mirrors_runInclusion hl
    · intro a b h v
      constructor
      · have he : (a.erase "include").erase "include" = a.erase "include" :=
          Context.erase_of_get? (by rw [Context.get?_erase, if_pos rfl])
        have hb : b = a.erase "include" := h.place
        rw [Context.erase_insert, Context.erase_insert, hb, he]
      · rw [Context.get?_insert, Context.get?_insert, if_pos rfl, if_pos rfl]
    · intro a b c d h hs
      exact h.restore hp hs.others
  · -- an entry that is there keeps its place, so the contexts are the same inside the include
    have hl : Mirrors (fun _ => False) Eq (env.load now left name) (env.load now (left + 1) name) :=
      mirrors_load (Context.carries_eq _) (Context.carries_eq _)
        (fun _ _ _ s _ => ⟨fun k _ _ _ h => by rw [h], fun k _ => Context.carries_eq k⟩)
        (fun _ _ => id) (.inr id) left name
    have hr : ∀ ctx : Context, ctx.restore "include" (some v) = ctx.insert "include" v := by
      intro ctx
      cases v with
      | nil => exact absurd rfl hp
      | _ => rfl
    apply Stmt.mirrors_runInclusion hl
    · intro a b h w
      rw [h.place, hr, Context.insert_insert]
    · intro a b c d h hs
      exact h.restore hp (by rw [hs])

section

variable {source : String} (entry : previous ≠ some .nil)
  (unread : ∀ s ∈ Stmt.partsAll (Template.parse source).children, "include" ∉ s.names)
  (unbound : ∀ s ∈ Stmt.partsAll (Template.parse source).children, ¬ s.Binds "include")
include entry unread unbound

theorem mirrors_in_place (left : Nat) (name template : String) :
    Mirrors (fun _ => False) (Inside previous)
      (Stmt.runAll now name (env.load now left) (Template.parse source).children)
      (Stmt.runAll now template (env.load now (left + 1)) (Template.parse source).children) := by
  apply Stmt.mirrors_runAll (Context.carries_inside _ (by decide))
  · intro s hs
    refine ⟨fun k hk a b hr => hr.get? ?_, fun k hk => Context.carries_inside _ ?_⟩
    · rintro rfl
      exact unread s hs hk
    · rintro rfl
      exact unbound s hs hk
  · rintro s hs inner params span rfl
    rw [Stmt.run, Stmt.run]
    -- the places that errors record differ, but the run inside has none
    exact Stmt.mirrors_locating (mirrors_inclusion entry left inner params) fun _ => False.elim

end

/-- If an include without parameters does not fail, its statements do the same in place of its tag,
as long as they neither look up nor bind `include`. -/
theorem runAll_of_inclusion {left : Nat} {template name source out : String} {span : Markup.Span}
    {ctx after : Context} (found : env.source? name = some source)
    (entry : ctx.get? "include" ≠ some .nil)
    (unread : ∀ s ∈ Stmt.partsAll (Template.parse source).children, "include" ∉ s.names)
    (unbound : ∀ s ∈ Stmt.partsAll (Template.parse source).children, ¬ s.Binds "include")
    (h : Stmt.run now template (env.load now left) (.inclusion name [] span) ctx =
      (.ok out, after)) :
    Stmt.runAll now template (env.load now left) (Template.parse source).children ctx =
      (.ok out, after) := by
  cases left with
  | zero => cases h
  | succ left =>
    have hl : env.load now (left + 1) name =
        Stmt.runAll now name (env.load now left) (Template.parse source).children := by
      rw [load, found]
    have hi := Stmt.runInclusion_eq [] (env.load now (left + 1) name) ctx
    rw [hl] at hi
    rcases hb : Stmt.runAll now name (env.load now left) (Template.parse source).children
      (ctx.insert "include" (Stmt.parameterValue [])) with ⟨e | text, mid⟩
    · rw [hb] at hi
      rw [Stmt.run, hl, Stmt.locating_error hi] at h
      cases h
    · rw [hb] at hi
      rw [Stmt.run, hl, Stmt.locating_ok hi] at h
      obtain ⟨mid', hr, hs⟩ := (mirrors_in_place entry unread unbound left name template).of_ok
        (Context.inside_insert entry) hb
      rw [hr, hs.place]
      exact h

/-- an include that loops over an include, in which a loop takes `include` for its variable -/
theorem runAll_of_inclusion_nested :
    let source := "{% for i in x %}{% include b %}{% assign y = i %}{% endfor %}"
    let env : Environment := { includes :=
      [("a", source), ("b", "{% for include in i %}{{ include }}{% endfor %}")] }
    let now : Instant := ⟨0, 0, 0⟩
    let ctx := Context.ofEntries [("include", .ofNat 2), ("x", .ofNat 1)]
    let load := env.load now env.limit
    let inside := Stmt.run now "page" load (.inclusion "a" [] .none) ctx
    env.source? "a" = some source ∧ ctx.get? "include" ≠ some .nil ∧
      (∀ s ∈ Stmt.partsAll (Template.parse source).children, "include" ∉ s.names) ∧
      (∀ s ∈ Stmt.partsAll (Template.parse source).children, ¬ s.Binds "include") ∧
      inside = (.ok "1", inside.2) ∧
      Stmt.runAll now "page" load (Template.parse source).children ctx = (.ok "1", inside.2) := by
  intro source env now ctx load inside
  have found : env.source? "a" = some source := by simp [env, source?]
  have entry : ctx.get? "include" ≠ some .nil := by
    have he : ctx.get? "include" = some (.ofNat 2) := rfl
    simp [he, Value.ofNat]
  have unread : ∀ s ∈ Stmt.partsAll (Template.parse source).children, "include" ∉ s.names := by
    decide +kernel
  have unbound : ∀ s ∈ Stmt.partsAll (Template.parse source).children, ¬ s.Binds "include" := by
    decide +kernel
  have hf : (match inside.1 with
      | .ok out => decide (out = "1")
      | .error _ => false) = true := by decide +kernel
  have h : inside = (.ok "1", inside.2) := by
    rcases hi : inside with ⟨e | out, last⟩
    · rw [hi] at hf
      cases hf
    · rw [hi] at hf
      rw [of_decide_eq_true hf]
  exact ⟨found, entry, unread, unbound, h, runAll_of_inclusion found entry unread unbound h⟩

end Environment

end Stencil
