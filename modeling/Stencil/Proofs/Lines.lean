import Stencil.Proofs.Bare
import Stencil.Proofs.Steps

/-! Runs of statements that differ only in their spans. They give the same text and leave the same
context. If an include fails, it fails alike, and only the line that the error names for the tag may
be another one. -/

namespace Stencil

open Calendar (Instant)
open Render (done andThen within andThen_error andThen_ok)

variable {now : Instant} {template : String} {load : String → Render String}

namespace Render

/-- Two results of a template: the same text, or the same error of an include of it, which may have
been found at another line. -/
inductive SameUpToLine (template : String) : Except Error String → Except Error String → Prop
  | ok (text : String) : SameUpToLine template (.ok text) (.ok text)
  | error (e : Error) (line line' : Nat) :
      SameUpToLine template (.error (e.locate ⟨template, line⟩)) (.error (e.locate ⟨template, line'⟩))

/-- From every context the two runs give the same up to a line, and leave the same context. -/
def Alike (template : String) (r r' : Render String) : Prop :=
  ∀ ctx, SameUpToLine template (r ctx).1 (r' ctx).1 ∧ (r' ctx).2 = (r ctx).2

theorem SameUpToLine.map {a b : Except Error String} (h : SameUpToLine template a b)
    (f : String → String) : SameUpToLine template (a.map f) (b.map f) := by
  cases h with
  | ok text => exact .ok (f text)
  | error e line line' => exact .error e line line'

theorem alike_done (text : String) : Alike template (done text) (done text) :=
  fun _ => ⟨.ok text, rfl⟩

theorem Alike.andThen {first first' second second' : Render String} (h : Alike template first first')
    (h' : Alike template second second') :
    Alike template (andThen first second) (andThen first' second') := by
  intro ctx
  have hs := h ctx
  rcases hf : first ctx with ⟨a, mid⟩
  rcases hf' : first' ctx with ⟨b, mid'⟩
  rw [hf, hf'] at hs
  obtain ⟨hs, rfl⟩ := hs
  cases hs with
  | ok text =>
    rw [andThen_ok hf, andThen_ok hf']
    obtain ⟨h1, h2⟩ := h' mid'
    exact ⟨h1.map _, h2⟩
  | error e line line' =>
    rw [andThen_error hf, andThen_error hf']
    exact ⟨.error e line line', rfl⟩

theorem Alike.within {r r' : Render String} (h : Alike template r r')
    (before after : Context → Context) :
    Alike template (within before after r) (within before after r') := by
  intro ctx
  obtain ⟨h1, h2⟩ := h (before ctx)
  exact ⟨h1, congrArg after h2⟩

end Render

open Render (Alike)

namespace Stmt

section

variable {target : String} {body body' : Render String} (hb : Alike template body body')
include hb

theorem alike_runItems (count : Nat) (vs : List Value) :
    ∀ index, Alike template (runItems target body count index vs)
      (runItems target body' count index vs) := by
  induction vs with
  | nil => exact fun _ => Render.alike_done ""
  | cons v vs ih =>
    intro index
    exact Alike.andThen (fun ctx => hb _) (ih (index + 1))

theorem alike_runLoop {otherwise otherwise' : Render String}
    (ho : Alike template otherwise otherwise') (items : List Value) :
    Alike template (runLoop target items body otherwise) (runLoop target items body' otherwise') := by
  intro ctx
  cases items with
  | nil => exact ho.within _ _ ctx
  | cons v vs => exact (alike_runItems hb (v :: vs).length (v :: vs) 0).within _ _ ctx

end

theorem alike_locating (run : Render String) (line line' : Nat) :
    Alike template (locating ⟨template, line⟩ run) (locating ⟨template, line'⟩ run) := by
  intro ctx
  rcases h : run ctx with ⟨e | text, last⟩
  · rw [locating_error h, locating_error h]
    exact ⟨.error e line line', rfl⟩
  · rw [locating_ok h, locating_ok h]
    exact ⟨.ok text, rfl⟩

mutual

theorem alike_run (s s' : Stmt) (h : s.bare = s'.bare) :
    Alike template (run now template load s) (run now template load s') := by
  cases s with
  | text raw span =>
    cases s' with
    | text raw' span' =>
      simp only [bare, text.injEq] at h
      rw [run, run, h.1]
      exact Render.alike_done raw'
    | _ => simp [bare] at h
  | rawTag raw span =>
    cases s' with
    | rawTag raw' span' =>
      simp only [bare, rawTag.injEq] at h
      rw [run, run, h.1]
      exact Render.alike_done raw'
    | _ => simp [bare] at h
  | output e span =>
    cases s' with
    | output e' span' =>
      simp only [bare, output.injEq] at h
      rw [run, run, h.1]
      exact fun ctx => ⟨.ok _, rfl⟩
    | _ => simp [bare] at h
  | choice branches otherwise span =>
    cases s' with
    | choice branches' otherwise' span' =>
      simp only [bare, choice.injEq] at h
      rw [run, run]
      exact alike_runBranches branches branches' h.1 (alike_runAll otherwise otherwise' h.2.1)
    | _ => simp [bare] at h
  | loop target items body otherwise span =>
    cases s' with
    | loop target' items' body' otherwise' span' =>
      simp only [bare, loop.injEq] at h
      have hb := alike_runAll body body' h.2.2.1
      have ho := alike_runAll otherwise otherwise' h.2.2.2.1
      intro ctx
      simp only [run, h.1, h.2.1]
      exact alike_runLoop hb ho _ ctx
    | _ => simp [bare] at h
  | assign target e span =>
    cases s' with
    | assign target' e' span' =>
      simp only [bare, assign.injEq] at h
      rw [run, run, h.1, h.2.1]
      exact fun ctx => ⟨.ok "", rfl⟩
    | _ => simp [bare] at h
  | inclusion name params span =>
    cases s' with
    | inclusion name' params' span' =>
      simp only [bare, inclusion.injEq] at h
      rw [run, run, h.1, h.2.1]
      exact alike_locating _ _ _
    | _ => simp [bare] at h

theorem alike_runAll (ss ss' : List Stmt) (h : bareAll ss = bareAll ss') :
    Alike template (runAll now template load ss) (runAll now template load ss') := by
  cases ss with
  | nil =>
    cases ss' with
    | nil => exact Render.alike_done ""
    | cons s' ss' => simp [bareAll] at h
  | cons s ss =>
    cases ss' with
    | nil => simp [bareAll] at h
    | cons s' ss' =>
      obtain ⟨hs, hss⟩ := List.cons.inj h
      rw [runAll, runAll]
      exact (alike_run s s' hs).andThen (alike_runAll ss ss' hss)

theorem alike_runBranches {otherwise otherwise' : Render String} (bs bs' : List Branch)
    (h : bareBranches bs = bareBranches bs') (ho : Alike template otherwise otherwise') :
    Alike template (runBranches now template load otherwise bs)
      (runBranches now template load otherwise' bs') := by
  cases bs with
  | nil =>
    cases bs' with
    | nil => exact ho
    | cons b' bs' =>
      cases b'
      simp [bareBranches] at h
  | cons b bs =>
    obtain ⟨condition, negated, body⟩ := b
    cases bs' with
    | nil => simp [bareBranches] at h
    | cons b' bs' =>
      obtain ⟨condition', negated', body'⟩ := b'
      simp only [bareBranches, List.cons.injEq, Branch.mk.injEq] at h
      obtain ⟨⟨rfl, rfl, hb⟩, hbs⟩ := h
      have hbody := alike_runAll body body' hb
      have hrest := alike_runBranches bs bs' hbs ho
      intro ctx
      simp only [runBranches]
      split
      · exact hbody ctx
      · exact hrest ctx

end

end Stmt

/-- Templates of the same tokens run alike, wherever these stand in their sources. -/
theorem Environment.alike_render (env : Environment) (now : Instant) (name : String)
    {source source' : String}
    (h : (Markup.Token.scan source.toList).map (·.1) = (Markup.Token.scan source'.toList).map (·.1)) :
    Alike name (env.render now name source) (env.render now name source') :=
  Stmt.alike_runAll _ _ (Template.bareAll_ofTokens_congr h)

end Stencil
