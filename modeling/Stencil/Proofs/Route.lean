import Stencil.Proofs.Steps

/-! Where errors come from. A run fails only at an include, and on its way out the error collects the
places of the includes that led there: a route through the templates, as long as the includes were
nested. -/

namespace Stencil

open Calendar (Instant)
open Error (Site)
open Render (Always Chains)

variable {now : Instant} {template : String} {load : String → Render String} {P : Error → Prop}

namespace Error

def sites (e : Error) : List Site := e.site.toList ++ e.includedFrom

/-- An error without a place of its own has no chain. -/
def Placed (e : Error) : Prop := e.site = none → e.includedFrom = []

@[simp] theorem kind_locate (e : Error) (s : Site) : (e.locate s).kind = e.kind := by
  rw [locate]
  cases e.site <;> rfl

@[simp] theorem detail_locate (e : Error) (s : Site) : (e.locate s).detail = e.detail := by
  rw [locate]
  cases e.site <;> rfl

theorem placed_locate (e : Error) (s : Site) : (e.locate s).Placed := by
  rw [locate, Placed]
  rcases e.site with _ | s' <;> simp

theorem sites_locate {e : Error} (h : e.Placed) (s : Site) : (e.locate s).sites = e.sites ++ [s] := by
  rcases hs : e.site with _ | s'
  · simp [locate, sites, hs, h hs]
  · simp [locate, sites, hs]

end Error

namespace Render

def FailsWith (P : Error → Prop) (r : Render String) : Prop :=
  Always (fun _ result => ∀ e, result.1 = .error e → P e) r

theorem chains_failsWith (P : Error → Prop) :
    Chains fun _ result => ∀ e, result.1 = .error e → P e := by
  constructor
  · intro ctx text e he
    cases he
  · intro ctx mid a result _ h e he
    rcases hr : result.1 with e' | b
    · rw [hr] at he
      cases he
      exact h e hr
    · rw [hr] at he
      cases he

end Render

open Render (FailsWith)

namespace Stmt

theorem failsWith_locating {site : Site} {run : Render String}
    (h : FailsWith (fun e => P (e.locate site)) run) : FailsWith P (locating site run) := by
  intro ctx e he
  have h1 := h ctx
  rcases hr : run ctx with ⟨e1 | a, last⟩
  · rw [locating_error hr] at he
    rw [hr] at h1
    cases he
    exact h1 e1 rfl
  · rw [locating_ok hr] at he
    cases he

theorem failsWith_runAll (ss : List Stmt)
    (h : ∀ name params span, .inclusion name params span ∈ partsAll ss →
      FailsWith (fun e => P (e.locate ⟨template, span.first.line⟩)) (load name)) :
    FailsWith P (runAll now template load ss) := by
  apply always_runAll (Render.chains_failsWith P)
  intro t ht
  cases t with
  | assign target =>
    intro ctx v e he
    cases he
  | loop target =>
    intro items body otherwise hb ho
    exact always_runLoop (Render.chains_failsWith P) hb (fun _ _ _ _ h => h) ho (fun _ _ h => h)
      (fun _ _ h => h) items
  | inclusion name params span =>
    apply failsWith_locating
    intro ctx
    exact h name params span ht _
  | _ => trivial

end Stmt

namespace Environment

/-- The places of includes, innermost first, that lead from a template of a name and a source to an
include of `m`: each is the line of an include tag in the template, and the next further in is in the
source that this tag names. -/
inductive Route (env : Environment) (m : String) : List Site → String → String → Prop
  | here {template source : String} {params : List (String × String)} {span : Markup.Span}
      (tag : .inclusion m params span ∈ Stmt.partsAll (Template.parse source).children) :
      Route env m [⟨template, span.first.line⟩] template source
  | step {template source inner text : String} {params : List (String × String)}
      {span : Markup.Span} {sites : List Site}
      (tag : .inclusion inner params span ∈ Stmt.partsAll (Template.parse source).children)
      (found : env.source? inner = some text) (rest : Route env m sites inner text) :
      Route env m (sites ++ [⟨template, span.first.line⟩]) template source

theorem Route.ne_nil {env : Environment} {m template source : String} {sites : List Site}
    (h : env.Route m sites template source) : sites ≠ [] := by
  cases h <;> simp

/-- What can be wrong with an include of `m` that is reached through `depth` others. -/
def Fault (env : Environment) (m : String) (depth left : Nat) (e : Error) : Prop :=
  (e.kind = .templateNotFound ∧ env.source? m = none ∧
      e.detail = some ("include not found: " ++ m) ∧ depth < left) ∨
    (e.kind = .invalidOperation ∧ depth = left)

theorem Fault.locate {env : Environment} {m : String} {depth left : Nat} {e : Error}
    (h : env.Fault m depth left e) (s : Site) : env.Fault m (depth + 1) (left + 1) (e.locate s) := by
  rcases h with ⟨hk, hs, hd, hl⟩ | ⟨hk, hl⟩
  · exact .inl ⟨by simpa using hk, hs, by simpa using hd, by omega⟩
  · exact .inr ⟨by simpa using hk, by omega⟩

/-- how the run of a template fails that may hold includes down to some levels -/
def Blames (env : Environment) (left : Nat) (template source : String) (e : Error) : Prop :=
  e.Placed ∧ ∃ m, env.Route m e.sites template source ∧ env.Fault m e.sites.length (left + 1) e

/-- how an include fails that may hold includes down to fewer levels: at once, or in its template -/
def Misses (env : Environment) (left : Nat) (name : String) (e : Error) : Prop :=
  e.Placed ∧ ((e.sites = [] ∧ env.Fault name 0 left e) ∨
    ∃ text m, env.source? name = some text ∧ env.Route m e.sites name text ∧
      env.Fault m e.sites.length left e)

theorem blames_runAll {env : Environment} {left : Nat} {source : String}
    (h : ∀ name, FailsWith (env.Misses left name) (env.load now left name)) :
    FailsWith (env.Blames left template source)
      (Stmt.runAll now template (env.load now left) (Template.parse source).children) := by
  refine Stmt.failsWith_runAll _ fun name params span tag ctx e he => ?_
  obtain ⟨hp, ⟨hs, hf⟩ | ⟨text, m, found, hr, hf⟩⟩ := h name ctx e he
  · refine ⟨e.placed_locate _, name, ?_, ?_⟩
    · rw [Error.sites_locate hp, hs]
      exact .here tag
    · rw [Error.sites_locate hp, hs]
      exact hf.locate _
  · refine ⟨e.placed_locate _, m, ?_, ?_⟩
    · rw [Error.sites_locate hp]
      exact .step tag found hr
    · rw [Error.sites_locate hp, List.length_append]
      exact hf.locate _

theorem misses_load (env : Environment) :
    ∀ left name, FailsWith (env.Misses left name) (env.load now left name) := by
  intro left
  -- each template on the way out adds one place to the error and has one level more
  induction left with
  | zero =>
    intro name ctx e he
    cases he
    exact ⟨fun _ => rfl, .inl ⟨rfl, .inr ⟨rfl, rfl⟩⟩⟩
  | succ left ih =>
    intro name ctx e he
    rw [load] at he
    rcases hs : env.source? name with _ | text
    · rw [hs] at he
      cases he
      exact ⟨fun _ => rfl, .inl ⟨rfl, .inl ⟨rfl, hs, rfl, Nat.succ_pos left⟩⟩⟩
    · rw [hs] at he
      obtain ⟨hp, m, hr, hf⟩ := blames_runAll ih ctx e he
      exact ⟨hp, .inr ⟨text, m, hs, hr, hf⟩⟩

/-- A render fails along a route from its template to an include that is missing, or that stands as
deep as includes may. -/
theorem route_of_render {env : Environment} {name source : String} {ctx : Context} {e : Error}
    (h : (env.render now name source ctx).1 = .error e) :
    ∃ site m, e.site = some site ∧ env.Route m (site :: e.includedFrom) name source ∧
      ((e.kind = .templateNotFound ∧ env.source? m = none ∧
          e.detail = some ("include not found: " ++ m) ∧ e.includedFrom.length < env.limit) ∨
        (e.kind = .invalidOperation ∧ e.includedFrom.length = env.limit)) := by
  obtain ⟨hp, m, hr, hf⟩ := blames_runAll (misses_load env env.limit) ctx e h
  rcases hs : e.site with _ | site
  · rw [Error.sites, hs, hp hs] at hr
    exact absurd rfl hr.ne_nil
  · have he : e.sites = site :: e.includedFrom := by rw [Error.sites, hs]; rfl
    rw [he] at hr hf
    refine ⟨site, m, rfl, hr, ?_⟩
    rcases hf with ⟨hk, hm, hd, hl⟩ | ⟨hk, hl⟩
    · exact .inl ⟨hk, hm, hd, by simpa using hl⟩
    · exact .inr ⟨hk, by simpa using hl⟩

/-- a missing include in an include in a loop -/
theorem route_of_render_missing :
    let env : Environment := { includes := [("a", "x\n{% include b %}")] }
    let ctx := Context.empty.insert "x" (.ofNat 1)
    let source := "{% for i in x %}\n{% include a %}{% endfor %}"
    let e : Error := { Error.notFound "b" with site := some ⟨"a", 2⟩, includedFrom := [⟨"page", 2⟩] }
    (env.render ⟨0, 0, 0⟩ "page" source ctx).1 = .error e ∧
      ∃ site m, e.site = some site ∧ env.Route m (site :: e.includedFrom) "page" source ∧
        ((e.kind = .templateNotFound ∧ env.source? m = none ∧
            e.detail = some ("include not found: " ++ m) ∧ e.includedFrom.length < env.limit) ∨
          (e.kind = .invalidOperation ∧ e.includedFrom.length = env.limit)) := by
  intro env ctx source e
  have hf : (match (env.render ⟨0, 0, 0⟩ "page" source ctx).1 with
      | .error e' => decide (e' = e)
      | .ok _ => false) = true := by decide +kernel
  have h : (env.render ⟨0, 0, 0⟩ "page" source ctx).1 = .error e := by
    rcases hr : (env.render ⟨0, 0, 0⟩ "page" source ctx).1 with e' | out
    · rw [hr] at hf
      rw [of_decide_eq_true hf]
    · rw [hr] at hf
      cases hf
  exact ⟨h, route_of_render h⟩

end Environment

end Stencil
