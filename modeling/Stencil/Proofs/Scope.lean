import Stencil.Proofs.Frame
import Stencil.Proofs.Names

/-! What a render leaves of a context, whether it fails or not: the parameters of an include and the
place in a loop are put back, loop variables are unbound, and apart from these only the variables of
assignments change. -/

namespace Stencil

open Calendar (Instant)
open Render (Always Chains Keeps)
open Context (Ignores)

variable {now : Instant} {Q : Context → Except Error String × Context → Prop}
  {ks : List String} {env : Environment} {source : String}

namespace Environment

/-- Includes have a property that passes on through steps in a row, if failing at once has it and
every statement admits it where the includes further in have it. -/
theorem always_load (hq : Chains Q) (hf : ∀ ctx e, Q ctx (.error e, ctx))
    (h : ∀ s ∈ env.stmts source, ∀ template load, (∀ name, Always Q (load name)) →
      s.Admits Q template load) :
    ∀ left name, Always Q (env.load now left name) := by
  intro left
  induction left with
  | zero => exact fun _ ctx => hf ctx _
  | succ left ih =>
    intro name
    rw [load]
    rcases hs : env.source? name with _ | inner
    · exact fun ctx => hf ctx _
    · apply Stmt.always_runAll hq
      intro s hm
      exact h s (mem_stmts_of_source? hs hm) name _ ih

theorem always_render (hq : Chains Q) (hf : ∀ ctx e, Q ctx (.error e, ctx))
    (h : ∀ s ∈ env.stmts source, ∀ template load, (∀ name, Always Q (load name)) →
      s.Admits Q template load) (name : String) : Always Q (env.render now name source) := by
  apply Stmt.always_runAll hq
  intro s hm
  exact h s (mem_stmts hm) name _ (always_load hq hf h env.limit)

end Environment

namespace Context

theorem resolve_restore (ctx after : Context) (k : String) :
    (after.restore k (ctx.get? k)).resolve [k] = ctx.resolve [k] := by
  have hr := get?_restore after k k (ctx.get? k)
  rw [if_pos rfl] at hr
  refine (congrArg (·.getD .nil) hr).trans ?_
  change _ = (ctx.get? k).getD .nil
  rcases ctx.get? k with _ | v
  · rfl
  · cases v <;> rfl

end Context

namespace Stmt

theorem keeps_include_inclusion (site : Error.Site) (params : List (String × String))
    (run : Render String) :
    Keeps (·.resolve ["include"]) (locating site (runInclusion params run)) := by
  intro ctx
  rw [locating_snd]
  exact Context.resolve_restore ctx _ "include"

theorem keeps_forloop_runLoop {target : String} (ht : "forloop" ≠ target) (items : List Value)
    {body otherwise : Render String} (ho : Keeps (·.resolve ["forloop"]) otherwise) :
    Keeps (·.resolve ["forloop"]) (runLoop target items body otherwise) := by
  intro ctx
  cases items with
  | nil => exact ((Context.ignores_resolve ht).erase _).trans (ho ctx)
  | cons v vs => exact Context.resolve_restore ctx _ "forloop"

end Stmt

namespace Environment

theorem keeps_include_render
    (h : ∀ s ∈ Stmt.partsAll (Template.parse source).children, ¬ s.Binds "include")
    (name : String) : Keeps (·.resolve ["include"]) (env.render now name source) := by
  apply Stmt.always_runAll (Render.chains_keeps (·.resolve ["include"]))
  intro s hm
  have hs := h s hm
  cases s with
  | assign target =>
    intro ctx v
    exact (Context.ignores_resolve (Ne.symm hs)).insert ctx v
  | loop target =>
    intro items body otherwise hb ho
    exact Stmt.keeps_runLoop (Context.ignores_resolve (Ne.symm hs))
      (Context.ignores_resolve (by decide)) hb ho items
  | inclusion inner params span => exact Stmt.keeps_include_inclusion _ params _
  | _ => trivial

theorem keeps_forloop_render (h : ∀ s ∈ env.stmts source, ¬ s.Binds "forloop") (name : String) :
    Keeps (·.resolve ["forloop"]) (env.render now name source) := by
  apply always_render (Render.chains_keeps (·.resolve ["forloop"])) (fun _ _ => rfl)
  intro s hm template load hload
  have hs := h s hm
  cases s with
  | assign target =>
    intro ctx v
    exact (Context.ignores_resolve (Ne.symm hs)).insert ctx v
  | loop target =>
    intro items body otherwise _ ho
    exact Stmt.keeps_forloop_runLoop (Ne.symm hs) items ho
  | inclusion inner params span =>
    intro ctx
    rw [Stmt.locating_snd]
    exact Stmt.keeps_runInclusion (Context.ignores_resolve (by decide)) (hload inner) ctx
  | _ => trivial

/-- What `include` and `forloop` were before a render they are after it, if no tag binds them: no
tag of the template itself for `include`, and none of an include either for `forloop`. -/
theorem lookup_render (env : Environment) (now : Instant) (name source : String) (ctx : Context) :
    let after := (env.render now name source ctx).2
    ((∀ s ∈ Stmt.partsAll (Template.parse source).children, ¬ s.Binds "include") →
        after.lookup "include" = ctx.lookup "include") ∧
      ((∀ s ∈ env.stmts source, ¬ s.Binds "forloop") →
        after.lookup "forloop" = ctx.lookup "forloop") :=
  ⟨fun h => keeps_include_render h name ctx, fun h => keeps_forloop_render h name ctx⟩

/-- an include that fails in a loop and assigns to `include` before -/
theorem lookup_render_failing :
    let env : Environment :=
      { includes := [("a", "{% assign include = 1 %}{% include missing %}")] }
    let now : Instant := ⟨0, 0, 0⟩
    let source := "{% for i in x %}{% include a %}{% endfor %}"
    let ctx := Context.ofEntries [("x", .ofNat 1), ("include", .ofNat 2), ("forloop", .ofNat 3)]
    let after := (env.render now "page" source ctx).2
    (∀ s ∈ Stmt.partsAll (Template.parse source).children, ¬ s.Binds "include") ∧
      (∀ s ∈ env.stmts source, ¬ s.Binds "forloop") ∧
      (env.render now "page" source ctx).1.toOption = none ∧
      after.lookup "include" = ctx.lookup "include" ∧
      after.lookup "forloop" = ctx.lookup "forloop" := by
  intro env now source ctx after
  have hi : ∀ s ∈ Stmt.partsAll (Template.parse source).children, ¬ s.Binds "include" := by
    decide +kernel
  have hl : ∀ s ∈ env.stmts source, ¬ s.Binds "forloop" := by decide +kernel
  have h := lookup_render env now "page" source ctx
  exact ⟨hi, hl, by decide +kernel, h.1 hi, h.2 hl⟩

end Environment

namespace Context

/-- the entries of a context, in their order, that are not of some variables -/
def outside (ctx : Context) (ks : List String) : List (String × Value) :=
  ctx.entries.filter fun e => e.1 ∉ ks

theorem ignores_outside {k : String} (hk : k ∈ ks) : Ignores (·.outside ks) k := by
  have hp : decide (k ∉ ks) = false := by simpa using hk
  exact ⟨fun ctx v => Entries.filter_put (fun k' => decide (k' ∉ ks)) hp v ctx.entries,
    fun ctx => Entries.filter_drop (fun k' => decide (k' ∉ ks)) hp ctx.entries⟩

/-- From one context to another no variable is newly bound but some. -/
def Grows (ks : List String) (ctx after : Context) : Prop :=
  ∀ k, (after.get? k).isSome → (ctx.get? k).isSome ∨ k ∈ ks

variable {ctx mid after : Context} {k : String}

theorem Grows.trans (h : Grows ks ctx mid) (h' : Grows ks mid after) : Grows ks ctx after := by
  intro k' hk
  rcases h' k' hk with hm | hm
  · exact h k' hm
  · exact .inr hm

theorem Grows.mono {ks' : List String} (h : Grows ks ctx after) (hs : ks ⊆ ks') :
    Grows ks' ctx after :=
  fun k' hk => (h k' hk).imp_right (@hs k')

theorem grows_insert (ctx : Context) (hk : k ∈ ks) (v : Value) : Grows ks ctx (ctx.insert k v) := by
  intro k' h
  rw [get?_insert] at h
  by_cases he : k' = k
  · exact .inr (he ▸ hk)
  · exact .inl (by rwa [if_neg he] at h)

theorem grows_erase (ks : List String) (ctx : Context) (k : String) :
    Grows ks ctx (ctx.erase k) := by
  intro k' h
  rw [get?_erase] at h
  by_cases he : k' = k
  · simp [he] at h
  · exact .inl (by rwa [if_neg he] at h)

theorem Grows.unbind (h : Grows (k :: ks) ctx after) : Grows ks ctx (after.erase k) := by
  intro k' hk
  rw [get?_erase] at hk
  by_cases he : k' = k
  · simp [he] at hk
  · rw [if_neg he] at hk
    exact (h k' hk).imp_right fun hm => (List.mem_cons.1 hm).resolve_left he

theorem Grows.put_back (h : Grows (k :: ks) ctx after) :
    Grows ks ctx (after.restore k (ctx.get? k)) := by
  intro k' hk
  rw [get?_restore] at hk
  by_cases he : k' = k
  · rw [if_pos he] at hk
    obtain ⟨v, hv⟩ := Option.isSome_iff_exists.1 hk
    have hb := (Option.filter_eq_some_iff.1 hv).1
    exact .inl (by rw [he, hb]; rfl)
  · rw [if_neg he] at hk
    exact (h k' hk).imp_right fun hm => (List.mem_cons.1 hm).resolve_left he

end Context

open Context (Grows)

namespace Render

/-- the variables that a step may bind newly, whatever it gives -/
def Introduces (ks : List String) (r : Render String) : Prop :=
  Always (fun ctx result => Grows ks ctx result.2) r

theorem chains_introduces (ks : List String) :
    Chains fun ctx result => Grows ks ctx result.2 :=
  ⟨fun _ _ _ hk => .inl hk, fun _ _ _ _ h h' => h.trans h'⟩

end Render

open Render (Introduces)

namespace Stmt

theorem introduces_runLoop {target : String} {body otherwise : Render String}
    (hb : Introduces ks body) (ho : Introduces ks otherwise) (items : List Value) :
    Introduces ks (runLoop target items body otherwise) := by
  intro ctx
  cases items with
  | nil => exact (ho ctx).trans (Context.grows_erase ks _ target)
  | cons v vs =>
    -- while the loop runs its variable and `forloop` are bound besides
    have hi : Introduces (target :: "forloop" :: ks)
        (runItems target body (v :: vs).length 0 (v :: vs)) := by
      apply always_runItems (Render.chains_introduces _)
      · intro ctx
        exact (hb ctx).mono (by simp)
      · intro ctx v w result h
        have ht : Grows (target :: "forloop" :: ks) ctx (ctx.insert target v) :=
          Context.grows_insert ctx (by simp) v
        exact (ht.trans (Context.grows_insert _ (by simp) w)).trans h
    have hg := (Context.grows_erase _ ctx "forloop").trans (hi (ctx.erase "forloop"))
    exact hg.unbind.put_back

theorem introduces_runInclusion {run : Render String} (h : Introduces ks run)
    (params : List (String × String)) : Introduces ks (runInclusion params run) := by
  intro ctx
  have hi : Grows ("include" :: ks) ctx (ctx.insert "include" (parameterValue params)) :=
    Context.grows_insert ctx List.mem_cons_self _
  exact (hi.trans ((h _).mono (by simp))).put_back

end Stmt

namespace Environment


/-- the variables that a render may change or unbind: those that tags bind, and those that are put
back -/
def touched (env : Environment) (source : String) : List String :=
  "include" :: "forloop" :: (env.assigned source ++ env.looped source)

theorem keeps_outside_render (name : String) :
    Keeps (·.outside (env.touched source)) (env.render now name source) := by
  apply always_render (Render.chains_keeps (·.outside (env.touched source))) (fun _ _ => rfl)
  intro s hm template load hload
  have hf : Ignores (·.outside (env.touched source)) "forloop" :=
    Context.ignores_outside (by simp [touched])
  have hs : s.Spares (·.outside (env.touched source)) load := by
    cases s with
    | assign target =>
      have ht := mem_assigned hm (List.mem_singleton.2 rfl)
      exact Context.ignores_outside (by simp [touched, ht])
    | loop target =>
      have ht := mem_looped hm (List.mem_singleton.2 rfl)
      exact ⟨Context.ignores_outside (by simp [touched, ht]), hf⟩
    | inclusion inner params span =>
      exact ⟨Context.ignores_outside (by simp [touched]), hload inner⟩
    | _ => trivial
  exact hs.admits

theorem introduces_render (name : String) :
    Introduces (env.assigned source) (env.render now name source) := by
  apply always_render (Render.chains_introduces _) (fun _ _ _ hk => .inl hk)
  intro s hm template load hload
  cases s with
  | assign target =>
    intro ctx v
    exact Context.grows_insert ctx (mem_assigned hm (List.mem_singleton.2 rfl)) v
  | loop target =>
    intro items body otherwise hb ho
    exact Stmt.introduces_runLoop hb ho items
  | inclusion inner params span =>
    intro ctx
    rw [Stmt.locating_snd]
    exact Stmt.introduces_runInclusion (hload inner) params ctx
  | _ => trivial

/-- A render keeps the entries of a context, with their order, that no tag binds, and newly binds
the variables of assignments alone. -/
theorem entries_render (env : Environment) (now : Instant) (name source : String) (ctx : Context) :
    let after := (env.render now name source ctx).2
    after.outside (env.touched source) = ctx.outside (env.touched source) ∧
      ∀ k, (after.get? k).isSome → (ctx.get? k).isSome ∨ k ∈ env.assigned source :=
  ⟨keeps_outside_render name ctx, introduces_render name ctx⟩

end Environment

end Stencil
