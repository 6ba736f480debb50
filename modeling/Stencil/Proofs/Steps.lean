import Stencil.Proofs.Parts
import Stencil.Render

/-! How runs are put together from steps. What holds of every step that a statement makes by itself,
and passes on through steps in a row, holds of the runs of whole templates. -/

namespace Stencil

open Calendar (Instant)
open Render (done andThen)

variable {now : Instant} {template : String} {load : String → Render String}
  {Q : Context → Except Error String × Context → Prop}

namespace Render

theorem andThen_error {first second : Render String} {ctx mid : Context} {e : Error}
    (h : first ctx = (.error e, mid)) : andThen first second ctx = (.error e, mid) := by
  rw [andThen, h]

theorem andThen_ok {first second : Render String} {ctx mid : Context} {a : String}
    (h : first ctx = (.ok a, mid)) :
    andThen first second ctx = ((second mid).1.map (a ++ ·), (second mid).2) := by
  rw [andThen, h]
  dsimp only
  rcases second mid with ⟨_ | b, last⟩ <;> rfl

@[simp] theorem map_empty_append (result : Except Error String) : result.map ("" ++ ·) = result := by
  rcases result with e | a <;> simp [Except.map]

@[simp] theorem andThen_done (r : Render String) : andThen r (done "") = r := by
  funext ctx
  rcases h : r ctx with ⟨e | a, mid⟩
  · exact andThen_error h
  · simp [andThen_ok h, done, Except.map]

@[simp] theorem done_andThen (r : Render String) : andThen (done "") r = r := by
  funext ctx
  have h : done "" ctx = (.ok "", ctx) := rfl
  rw [andThen_ok h, map_empty_append]

theorem andThen_assoc (first second third : Render String) :
    andThen (andThen first second) third = andThen first (andThen second third) := by
  funext ctx
  rcases h : first ctx with ⟨e | a, mid⟩
  · rw [andThen_error h, andThen_error (andThen_error h)]
  · rw [andThen_ok h]
    rcases h' : second mid with ⟨e | b, next⟩
    · rw [andThen_error h', andThen_error (by rw [andThen_ok h, h']; rfl)]
      rfl
    · rw [andThen_ok h', andThen_ok (a := a ++ b) (by rw [andThen_ok h, h']; rfl)]
      rcases third next with ⟨e | d, last⟩ <;> simp [Except.map, String.append_assoc]

/-- what holds of every context and what a step gives from there -/
def Always (Q : Context → Except Error String × Context → Prop) (r : Render String) : Prop :=
  ∀ ctx, Q ctx (r ctx)

/-- Steps that only write have the property, and two steps in a row have it if both do. -/
structure Chains (Q : Context → Except Error String × Context → Prop) : Prop where
  done : ∀ ctx text, Q ctx (.ok text, ctx)
  next : ∀ ctx mid a result, Q ctx (.ok a, mid) → Q mid result →
    Q ctx (result.1.map (a ++ ·), result.2)

theorem Chains.andThen (hq : Chains Q) {first second : Render String} (h : Always Q first)
    (h' : Always Q second) : Always Q (andThen first second) := by
  intro ctx
  have h1 := h ctx
  rcases hf : first ctx with ⟨e | a, mid⟩
  · rw [andThen_error hf, ← hf]
    exact h1
  · rw [andThen_ok hf]
    rw [hf] at h1
    exact hq.next ctx mid a (second mid) h1 (h' mid)

end Render

open Render (Always Chains)

namespace Stmt

theorem locating_error {site : Error.Site} {run : Render String} {ctx last : Context} {e : Error}
    (h : run ctx = (.error e, last)) : locating site run ctx = (.error (e.locate site), last) := by
  rw [locating, h]

theorem locating_ok {site : Error.Site} {run : Render String} {ctx last : Context} {text : String}
    (h : run ctx = (.ok text, last)) : locating site run ctx = (.ok text, last) := by
  rw [locating, h]

theorem runAll_append (as bs : List Stmt) :
    runAll now template load (as ++ bs) =
      andThen (runAll now template load as) (runAll now template load bs) := by
  induction as with
  | nil => simp [runAll]
  | cons a as ih => rw [List.cons_append, runAll, ih, runAll, Render.andThen_assoc]

/-- What a property asks of a statement by itself, if what is inside it has the property. -/
def Admits (Q : Context → Except Error String × Context → Prop) (template : String)
    (load : String → Render String) : Stmt → Prop
  | assign target _ _ => ∀ ctx v, Q ctx (.ok "", ctx.insert target v)
  | loop target _ _ _ _ => ∀ items body otherwise, Always Q body → Always Q otherwise →
      Always Q (runLoop target items body otherwise)
  | inclusion name params span =>
      Always Q (locating ⟨template, span.first.line⟩ (runInclusion params (load name)))
  | _ => True

mutual

/-- A run has a property that passes on through steps in a row, if all statements admit it. -/
theorem always_run (hq : Chains Q) (s : Stmt) (h : ∀ t ∈ s.parts, t.Admits Q template load) :
    Always Q (run now template load s) := by
  cases s with
  | text | rawTag | output =>
    rw [run]
    intro ctx
    exact hq.done ctx _
  | choice branches otherwise span =>
    rw [run]
    apply always_runBranches hq
    · intro t ht
      exact h t (by simp [parts, ht])
    · apply always_runAll hq
      intro t ht
      exact h t (by simp [parts, ht])
  | loop target items body otherwise span =>
    rw [run]
    have hl := h (.loop target items body otherwise span) (by simp [parts])
    have hb := always_runAll hq body fun t ht => h t (by simp [parts, ht])
    have ho := always_runAll hq otherwise fun t ht => h t (by simp [parts, ht])
    intro ctx
    exact hl _ _ _ hb ho ctx
  | assign target e span =>
    rw [run]
    have ha := h (.assign target e span) (by simp [parts])
    intro ctx
    exact ha ctx _
  | inclusion name params span =>
    rw [run]
    exact h (.inclusion name params span) (by simp [parts])

theorem always_runAll (hq : Chains Q) (ss : List Stmt)
    (h : ∀ t ∈ partsAll ss, t.Admits Q template load) :
    Always Q (runAll now template load ss) := by
  cases ss with
  | nil => exact fun ctx => hq.done ctx ""
  | cons s ss =>
    rw [runAll]
    apply hq.andThen
    · apply always_run hq
      intro t ht
      exact h t (by simp [partsAll, ht])
    · apply always_runAll hq
      intro t ht
      exact h t (by simp [partsAll, ht])

theorem always_runBranches (hq : Chains Q) {otherwise : Render String} (bs : List Branch)
    (h : ∀ t ∈ partsBranches bs, t.Admits Q template load) (ho : Always Q otherwise) :
    Always Q (runBranches now template load otherwise bs) := by
  cases bs with
  | nil => exact ho
  | cons b bs =>
    obtain ⟨condition, negated, body⟩ := b
    have hb := always_runAll hq body fun t ht => h t (by simp [partsBranches, ht])
    have hr := always_runBranches hq bs (fun t ht => h t (by simp [partsBranches, ht])) ho
    intro ctx
    simp only [runBranches]
    split
    · exact hb ctx
    · exact hr ctx

end

section

variable (hq : Chains Q) {target : String} {body : Render String} (hb : Always Q body)
  (hi : ∀ ctx v w result, Q ((ctx.insert target v).insert "forloop" w) result → Q ctx result)
include hq hb hi

theorem always_runItems (count : Nat) (vs : List Value) :
    ∀ index, Always Q (runItems target body count index vs) := by
  induction vs with
  | nil => exact fun _ ctx => hq.done ctx ""
  | cons v vs ih =>
    intro index
    apply hq.andThen
    · intro ctx
      exact hi ctx v _ _ (hb _)
    · exact ih (index + 1)

/-- through a loop, if it does not matter either what is unbound and put back around it -/
theorem always_runLoop {otherwise : Render String} (ho : Always Q otherwise)
    (he : ∀ ctx result, Q ctx result → Q ctx (result.1, result.2.erase target))
    (hr : ∀ ctx result, Q (ctx.erase "forloop") result →
      Q ctx (result.1, (result.2.erase target).restore "forloop" (ctx.get? "forloop")))
    (items : List Value) : Always Q (runLoop target items body otherwise) := by
  intro ctx
  cases items with
  | nil => exact he ctx _ (ho ctx)
  | cons v vs => exact hr ctx _ (always_runItems hq hb hi _ (v :: vs) 0 _)

end

end Stmt

end Stencil
