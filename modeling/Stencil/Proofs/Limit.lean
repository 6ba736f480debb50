import Stencil.Proofs.Mirror
import Stencil.Proofs.Route

/-! The recursion limit. It decides only whether includes nest too deep: a render that does not fail
for that reason is the same under every higher limit. -/

namespace Stencil

open Calendar (Instant)
open Render (Mirrors)

variable {now : Instant}

namespace Render

/-- A result is settled unless it is the error of includes that nest too deep. -/
def Settled (result : Except Error String × Context) : Prop :=
  ∀ e, result.1 = .error e → e.kind ≠ .invalidOperation

instance : DecidablePred Settled := fun result =>
  match h : result.1 with
  | .ok _ => isTrue fun e he => by rw [h] at he; cases he
  | .error e =>
    decidable_of_iff (e.kind ≠ .invalidOperation)
      ⟨fun hk e' he => by rw [h] at he; cases he; exact hk, fun hs => hs e h⟩

end Render

open Render (Settled)

namespace Environment

def withLimit (env : Environment) (limit : Nat) : Environment := { env with limit := limit }

/-- An include with levels to spare runs as one without, unless that one has too few of them. -/
theorem mirrors_load_withLimit (env : Environment) (low high more : Nat) :
    ∀ left name, Mirrors (·.kind ≠ .invalidOperation) Eq
      ((env.withLimit low).load now left name)
      ((env.withLimit high).load now (left + more) name) := by
  intro left
  induction left with
  | zero =>
    intro name a b _ hp
    exact absurd rfl (hp _ rfl)
  | succ left ih =>
    intro name
    have hf : ∀ limit, (env.withLimit limit).source? name = env.source? name := fun _ => rfl
    rw [Nat.succ_add, load, load, hf, hf]
    rcases env.source? name with _ | source
    · exact Render.mirrors_fail _
    · exact mirrors_template ih (fun e site => by simp) name source

/-- Under a higher limit renders of templates and of includes give the same result, and leave the
same context, unless they fail because includes nest too deep. -/
theorem render_of_limit_le {low high : Nat} (h : low ≤ high) (env : Environment) (now : Instant)
    (name source : String) (ctx : Context) :
    (Settled ((env.withLimit low).render now name source ctx) →
        (env.withLimit high).render now name source ctx =
          (env.withLimit low).render now name source ctx) ∧
      (Settled ((env.withLimit low).renderInclude now name ctx) →
        (env.withLimit high).renderInclude now name ctx =
          (env.withLimit low).renderInclude now name ctx) := by
  obtain ⟨more, rfl⟩ := Nat.exists_eq_add_of_le h
  have hl : ∀ inner, Mirrors (·.kind ≠ .invalidOperation) Eq
      ((env.withLimit low).load now low inner)
      ((env.withLimit (low + more)).load now (low + more) inner) :=
    mirrors_load_withLimit env low (low + more) more low
  exact ⟨(mirrors_template hl (fun e site => by simp) name source).eq, (hl name).eq⟩

/-- an include that is missing at the last level of the lower limit -/
theorem render_of_limit_le_missing :
    let env : Environment := { includes := [("a", "{% assign y = 1 %}{% include b %}")] }
    let now : Instant := ⟨0, 0, 0⟩
    let source := "{% for i in x %}{% include a %}{% endfor %}"
    let ctx := Context.ofEntries [("x", .ofNat 1)]
    2 ≤ 100 ∧ ¬ Settled ((env.withLimit 1).render now "a" source ctx) ∧
      Settled ((env.withLimit 2).render now "a" source ctx) ∧
      Settled ((env.withLimit 2).renderInclude now "a" ctx) ∧
      (env.withLimit 100).render now "a" source ctx = (env.withLimit 2).render now "a" source ctx ∧
      (env.withLimit 100).renderInclude now "a" ctx =
        (env.withLimit 2).renderInclude now "a" ctx := by
  intro env now source ctx
  have hs : Settled ((env.withLimit 2).render now "a" source ctx) := by decide +kernel
  have hi : Settled ((env.withLimit 2).renderInclude now "a" ctx) := by decide +kernel
  have h := render_of_limit_le (show 2 ≤ 100 by decide) env now "a" source ctx
  exact ⟨by decide, by decide +kernel, hs, hi, h.1 hs, h.2 hi⟩

end Environment

end Stencil
