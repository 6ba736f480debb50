import Mathlib.Data.List.Basic
import Stencil.Proofs.Mirror
import Stencil.Proofs.Route

/-! Adding an include. A name that nothing was found under, with the extension or without, takes no
name away from the includes that were there: what rendered before renders as before. -/

namespace Stencil

open Calendar (Instant)
open Render (Mirrors)

variable {env : Environment} {now : Instant} {name source : String}

namespace Environment

theorem lookup_addInclude (env : Environment) (name source k : String) :
    (env.addInclude name source).includes.lookup k =
      if k = name then some source else env.includes.lookup k :=
  Entries.lookup_put name k source env.includes

/-- What is found is found as before. A name that is found with the extension is not the new one, and
with the extension it is not either: the new name is not found in any way. -/
theorem source?_addInclude (h : env.source? name = none) {k found : String}
    (hf : env.source? k = some found) : (env.addInclude name source).source? k = some found := by
  have hl : env.includes.lookup name = none := (Option.or_eq_none_iff.1 h).1
  have hk : k ≠ name := by
    rintro rfl
    rw [h] at hf
    cases hf
  have hx : (env.addInclude name source).extension = env.extension := rfl
  rw [source?, lookup_addInclude, if_neg hk, lookup_addInclude, hx]
  rcases Option.or_eq_some_iff.1 hf with hb | ⟨hb, he⟩
  · rw [hb]
    rfl
  · have hke : k ++ env.extension ≠ name := by
      intro hke
      rw [hke, hl] at he
      cases he
    rw [hb, if_neg hke, he]
    rfl

theorem mirrors_load_addInclude (h : env.source? name = none) :
    ∀ left k, Mirrors (·.kind ≠ .templateNotFound) Eq (env.load now left k)
      ((env.addInclude name source).load now left k) := by
  intro left
  induction left with
  | zero => exact fun k => Render.mirrors_fail _
  | succ left ih =>
    intro k
    rw [load, load]
    rcases hf : env.source? k with _ | found
    · intro a b _ hp
      exact absurd rfl (hp _ rfl)
    · rw [source?_addInclude h hf]
      exact mirrors_template ih (fun e site => by simp) k found

theorem render_addInclude_of_kind (h : env.source? name = none) {template text : String}
    {ctx : Context}
    (hk : ∀ e, (env.render now template text ctx).1 = .error e → e.kind ≠ .templateNotFound) :
    (env.addInclude name source).render now template text ctx =
      env.render now template text ctx :=
  (mirrors_template (mirrors_load_addInclude h env.limit) (fun e site => by simp) template text).eq hk

/-- What renders in an environment renders to the same output, and leaves the same context, when an
include is added under a name that none is found under. -/
theorem render_addInclude {env : Environment} {name : String} (h : env.source? name = none)
    (source : String) {now : Instant} {template text out : String} {ctx : Context}
    (hr : (env.render now template text ctx).1 = .ok out) :
    (env.addInclude name source).render now template text ctx =
      (.ok out, (env.render now template text ctx).2) := by
  rw [← hr]
  apply render_addInclude_of_kind h
  intro e he
  rw [hr] at he
  cases he

/-- a name that ends in the extension, and that is an included name with the extension twice -/
theorem render_addInclude_extension :
    let env : Environment := { includes := [("a.html", "{% assign y = include.p %}<{{ y }}>")] }
    let now : Instant := ⟨0, 0, 0⟩
    let text := "{% include a p=1 %}{% include a.html p=2 %}"
    let ctx := Context.ofEntries [("y", .bool true)]
    env.source? "a.html.html" = none ∧ (env.render now "t" text ctx).1 = .ok "<1><2>" ∧
      (env.addInclude "a.html.html" "new").render now "t" text ctx =
        (.ok "<1><2>", (env.render now "t" text ctx).2) := by
  intro env now text ctx
  have h : env.source? "a.html.html" = none := by decide +kernel
  have hr : (env.render now "t" text ctx).1 = .ok "<1><2>" := by decide +kernel
  exact ⟨h, hr, render_addInclude h "new" hr⟩

end Environment

end Stencil
