import Stencil.Proofs.Names
import Stencil.Proofs.Steps

/-! Two runs next to each other. From contexts that are related in a way that every tag preserves, a
template runs alike and ends in related contexts. It follows that a render depends on the variables
alone that are looked up. -/

namespace Stencil

open Calendar (Instant)
open Error (Site)
open Render (done andThen within andThen_error andThen_ok)

variable {now : Instant} {P : Error → Prop} {R S : Context → Context → Prop}

namespace Context

/-- Two contexts stay related if a variable is bound in both, unbound in both, or put back in both
to what it was in related contexts. -/
structure Carries (R : Context → Context → Prop) (name : String) : Prop where
  insert : ∀ {a b}, R a b → ∀ v, R (a.insert name v) (b.insert name v)
  erase : ∀ {a b}, R a b → R (a.erase name) (b.erase name)
  restore : ∀ {a b c d}, R a b → R c d →
    R (c.restore name (a.get? name)) (d.restore name (b.get? name))

theorem Carries.of_get? {name : String} (hg : ∀ {a b}, R a b → a.get? name = b.get? name)
    (hi : ∀ {a b}, R a b → ∀ v, R (a.insert name v) (b.insert name v))
    (he : ∀ {a b}, R a b → R (a.erase name) (b.erase name)) : Carries R name := by
  refine ⟨hi, he, fun {a b c d} hab hcd => ?_⟩
  rw [hg hab]
  rcases restore_erase_or_insert name (b.get? name) with h | ⟨v, h⟩
  · rw [h, h]
    exact he hcd
  · rw [h, h]
    exact hi hcd v

theorem carries_eq (name : String) : Carries Eq name :=
  .of_get? (fun h => by rw [h]) (fun h v => by rw [h]) (fun h => by rw [h])

/-- If contexts are to agree on some variables, another one may be changed, and one of these is
changed alike. -/
theorem carries_get? (p : String → Prop) (name : String) :
    Carries (fun a b => ∀ k, p k → a.get? k = b.get? k) name := by
  refine ⟨fun h v k hk => ?_, fun h k hk => ?_, fun hab hcd k hk => ?_⟩
  · rw [get?_insert, get?_insert, h k hk]
  · rw [get?_erase, get?_erase, h k hk]
  · rw [get?_restore, get?_restore, hcd k hk]
    by_cases hn : k = name
    · rw [← hn, hab k hk]
    · rw [if_neg hn, if_neg hn]

def AgreeOn (ks : List String) (a b : Context) : Prop := ∀ k ∈ ks, a.get? k = b.get? k

theorem carries_agreeOn (ks : List String) (name : String) : Carries (AgreeOn ks) name :=
  carries_get? (· ∈ ks) name

end Context

open Context (Carries AgreeOn)

namespace Render

/-- From related contexts the second step gives what the first gives, and leaves a related context,
unless the first fails with an error outside `P`. -/
def Mirrors (P : Error → Prop) (R : Context → Context → Prop) (r r' : Render String) : Prop :=
  ∀ a b, R a b → (∀ e, (r a).1 = .error e → P e) → (r' b).1 = (r a).1 ∧ R (r a).2 (r' b).2

theorem mirrors_done (text : String) : Mirrors P R (done text) (done text) :=
  fun _ _ h _ => ⟨rfl, h⟩

theorem mirrors_fail (e : Error) : Mirrors P R (fail e) (fail e) :=
  fun _ _ h _ => ⟨rfl, h⟩

section

variable {r r' : Render String} (h : Mirrors P R r r') {a b mid : Context} (hr : R a b)
include h hr

theorem Mirrors.of_error {e : Error} (hf : r a = (.error e, mid)) (hp : P e) :
    ∃ mid', r' b = (.error e, mid') ∧ R mid mid' := by
  have h1 := h a b hr
  rw [hf] at h1
  obtain ⟨h1, h2⟩ := h1 fun e' he => by cases he; exact hp
  exact ⟨(r' b).2, Prod.ext h1 rfl, h2⟩

theorem Mirrors.of_ok {text : String} (hf : r a = (.ok text, mid)) :
    ∃ mid', r' b = (.ok text, mid') ∧ R mid mid' := by
  have h1 := h a b hr
  rw [hf] at h1
  obtain ⟨h1, h2⟩ := h1 fun e' he => by cases he
  exact ⟨(r' b).2, Prod.ext h1 rfl, h2⟩

end

theorem Mirrors.andThen {first first' second second' : Render String} (h : Mirrors P R first first')
    (h' : Mirrors P R second second') :
    Mirrors P R (andThen first second) (andThen first' second') := by
  intro a b hr hp
  rcases hf : first a with ⟨e | text, mid⟩
  · rw [andThen_error hf] at hp ⊢
    obtain ⟨mid', hf', hm⟩ := h.of_error hr hf (hp e rfl)
    rw [andThen_error hf']
    exact ⟨rfl, hm⟩
  · rw [andThen_ok hf] at hp ⊢
    obtain ⟨mid', hf', hm⟩ := h.of_ok hr hf
    rw [andThen_ok hf']
    -- an error of the second step is one of both together
    have hs : ∀ e, (second mid).1 = .error e → P e := fun e he => hp e (by rw [he]; rfl)
    obtain ⟨h1, h2⟩ := h' mid mid' hm hs
    exact ⟨by rw [h1], h2⟩

/-- From one context both steps give the same, unless the first fails with an error outside `P`. -/
theorem Mirrors.eq {r r' : Render String} (h : Mirrors P Eq r r') {ctx : Context}
    (hp : ∀ e, (r ctx).1 = .error e → P e) : r' ctx = r ctx := by
  obtain ⟨h1, h2⟩ := h ctx ctx rfl hp
  exact Prod.ext h1 h2.symm

theorem Mirrors.within {r r' : Render String} {before before' after after' : Context → Context}
    (h : Mirrors P S r r') {a b : Context} (hb : S (before a) (before' b))
    (ha : ∀ c d, S c d → R (after c) (after' d))
    (hp : ∀ e, (within before after r a).1 = .error e → P e) :
    (within before' after' r' b).1 = (within before after r a).1 ∧
      R (within before after r a).2 (within before' after' r' b).2 := by
  obtain ⟨h1, h2⟩ := h _ _ hb hp
  exact ⟨h1, ha _ _ h2⟩

end Render

open Render (Mirrors)

namespace Stmt

theorem mirrors_locating {r r' : Render String} {site site' : Site} (h : Mirrors P R r r')
    (hs : ∀ e, P (e.locate site) → P e ∧ e.locate site' = e.locate site) :
    Mirrors P R (locating site r) (locating site' r') := by
  intro a b hr hp
  rcases hf : r a with ⟨e | text, mid⟩
  · rw [locating_error hf] at hp ⊢
    obtain ⟨he, hl⟩ := hs e (hp _ rfl)
    obtain ⟨mid', hf', hm⟩ := h.of_error hr hf he
    rw [locating_error hf', hl]
    exact ⟨rfl, hm⟩
  · obtain ⟨mid', hf', hm⟩ := h.of_ok hr hf
    rw [locating_ok hf, locating_ok hf']
    exact ⟨rfl, hm⟩

theorem mirrors_runInclusion {r r' : Render String} (h : Mirrors P S r r')
    (hi : ∀ {a b}, R a b → ∀ v, S (a.insert "include" v) (b.insert "include" v))
    (ho : ∀ {a b c d}, R a b → S c d →
      R (c.restore "include" (a.get? "include")) (d.restore "include" (b.get? "include")))
    (params : List (String × String)) :
    Mirrors P R (runInclusion params r) (runInclusion params r') :=
  fun _ _ hr hp => h.within (hi hr _) (fun _ _ hs => ho hr hs) hp

section

variable {target : String} {body body' : Render String} (ht : Carries R target)
  (hl : Carries R "forloop") (hb : Mirrors P R body body')
include ht hl hb

theorem mirrors_runItems (count : Nat) (vs : List Value) :
    ∀ index, Mirrors P R (runItems target body count index vs)
      (runItems target body' count index vs) := by
  induction vs with
  | nil => exact fun _ => Render.mirrors_done ""
  | cons v vs ih =>
    intro index
    refine Mirrors.andThen (fun a b hr => ?_) (ih (index + 1))
    exact hb _ _ (hl.insert (ht.insert hr v) _)

theorem mirrors_runLoop {otherwise otherwise' : Render String}
    (ho : Mirrors P R otherwise otherwise') (items : List Value) :
    Mirrors P R (runLoop target items body otherwise) (runLoop target items body' otherwise') := by
  intro a b hr hp
  cases items with
  | nil => exact ho.within hr (fun _ _ => ht.erase) hp
  | cons v vs =>
    have hm := mirrors_runItems ht hl hb (v :: vs).length (v :: vs) 0
    exact hm.within (hl.erase hr) (fun _ _ hs => hl.restore hr (ht.erase hs)) hp

end

/-- Related contexts give the same value to every variable that a statement looks up, and they stay
related if one is changed that it binds. -/
structure Respects (R : Context → Context → Prop) (s : Stmt) : Prop where
  names : ∀ k ∈ s.names, ∀ {a b}, R a b → a.get? k = b.get? k
  binds : ∀ k, s.Binds k → Carries R k

/-- If the statement is an include, the two runs of it mirror each other. -/
def RunsAlike (P : Error → Prop) (R : Context → Context → Prop) (run run' : Stmt → Render String)
    (s : Stmt) : Prop :=
  ∀ name params span, s = .inclusion name params span → Mirrors P R (run s) (run' s)

variable {template template' : String} {load load' : String → Render String}

mutual

theorem mirrors_run (hl : Carries R "forloop") (s : Stmt) (h : ∀ t ∈ s.parts, t.Respects R)
    (hi : ∀ t ∈ s.parts, t.RunsAlike P R (run now template load) (run now template' load')) :
    Mirrors P R (run now template load s) (run now template' load' s) := by
  cases s with
  | text raw | rawTag raw =>
    rw [run, run]
    exact Render.mirrors_done raw
  | output e span =>
    have hs := h (.output e span) (by simp [parts])
    intro a b hr _
    have he : e.eval now a = e.eval now b := e.eval_congr fun k hk => hs.names k hk hr
    simp only [run]
    rw [he]
    exact ⟨rfl, hr⟩
  | choice branches otherwise span =>
    have hs := h (.choice branches otherwise span) (by simp [parts])
    rw [run, run]
    apply mirrors_runBranches hl branches
    · intro b hb k hk
      exact hs.names k (List.mem_flatMap.2 ⟨b, hb, hk⟩)
    · intro t ht
      exact h t (by simp [parts, ht])
    · intro t ht
      exact hi t (by simp [parts, ht])
    · apply mirrors_runAll hl otherwise
      · intro t ht
        exact h t (by simp [parts, ht])
      · intro t ht
        exact hi t (by simp [parts, ht])
  | loop target items body otherwise span =>
    have hs := h (.loop target items body otherwise span) (by simp [parts])
    have hb := mirrors_runAll hl body (fun t ht => h t (by simp [parts, ht]))
      fun t ht => hi t (by simp [parts, ht])
    have ho := mirrors_runAll hl otherwise (fun t ht => h t (by simp [parts, ht]))
      fun t ht => hi t (by simp [parts, ht])
    intro a b hr
    have he : items.eval now a = items.eval now b := items.eval_congr fun k hk => hs.names k hk hr
    simp only [run]
    rw [he]
    exact mirrors_runLoop (hs.binds target rfl) hl hb ho _ a b hr
  | assign target e span =>
    have hs := h (.assign target e span) (by simp [parts])
    intro a b hr _
    have he : e.eval now a = e.eval now b := e.eval_congr fun k hk => hs.names k hk hr
    simp only [run]
    rw [he]
    exact ⟨trivial, (hs.binds target rfl).insert hr _⟩
  | inclusion name params span =>
    exact hi (.inclusion name params span) (by simp [parts]) name params span rfl

theorem mirrors_runAll (hl : Carries R "forloop") (ss : List Stmt)
    (h : ∀ t ∈ partsAll ss, t.Respects R)
    (hi : ∀ t ∈ partsAll ss, t.RunsAlike P R (run now template load) (run now template' load')) :
    Mirrors P R (runAll now template load ss) (runAll now template' load' ss) := by
  cases ss with
  | nil => exact Render.mirrors_done ""
  | cons s ss =>
    rw [runAll, runAll]
    apply Mirrors.andThen
    · apply mirrors_run hl s
      · intro t ht
        exact h t (by simp [partsAll, ht])
      · intro t ht
        exact hi t (by simp [partsAll, ht])
    · apply mirrors_runAll hl ss
      · intro t ht
        exact h t (by simp [partsAll, ht])
      · intro t ht
        exact hi t (by simp [partsAll, ht])

theorem mirrors_runBranches (hl : Carries R "forloop") {otherwise otherwise' : Render String}
    (bs : List Branch)
    (hn : ∀ b ∈ bs, ∀ k ∈ b.condition.names, ∀ {a b}, R a b → a.get? k = b.get? k)
    (h : ∀ t ∈ partsBranches bs, t.Respects R)
    (hi : ∀ t ∈ partsBranches bs, t.RunsAlike P R (run now template load) (run now template' load'))
    (ho : Mirrors P R otherwise otherwise') :
    Mirrors P R (runBranches now template load otherwise bs)
      (runBranches now template' load' otherwise' bs) := by
  cases bs with
  | nil => exact ho
  | cons branch bs =>
    obtain ⟨condition, negated, body⟩ := branch
    have hb := mirrors_runAll hl body (fun t ht => h t (by simp [partsBranches, ht]))
      fun t ht => hi t (by simp [partsBranches, ht])
    have hrest := mirrors_runBranches hl bs (fun b hm => hn b (List.mem_cons_of_mem _ hm))
      (fun t ht => h t (by simp [partsBranches, ht]))
      (fun t ht => hi t (by simp [partsBranches, ht])) ho
    intro a b hr
    have hc : condition.holds now a = condition.holds now b :=
      condition.holds_congr fun k hk => hn _ List.mem_cons_self k hk hr
    simp only [runBranches, hc]
    split
    · exact hb a b hr
    · exact hrest a b hr

end

theorem runsAlike_of_load (hi : Carries R "include")
    (hl : ∀ name, Mirrors P R (load name) (load' name))
    (hp : ∀ e site, P (Error.locate e site) → P e) (s : Stmt) :
    s.RunsAlike P R (run now template load) (run now template load') := by
  rintro name params span rfl
  rw [run, run]
  apply mirrors_locating
  · exact mirrors_runInclusion (hl name) hi.insert hi.restore params
  · exact fun e he => ⟨hp e _ he, rfl⟩

end Stmt

namespace Environment

variable {env : Environment}

theorem mirrors_template {load load' : String → Render String}
    (h : ∀ name, Mirrors P Eq (load name) (load' name))
    (hp : ∀ e site, P (Error.locate e site) → P e) (name source : String) :
    Mirrors P Eq (Stmt.runAll now name load (Template.parse source).children)
      (Stmt.runAll now name load' (Template.parse source).children) := by
  apply Stmt.mirrors_runAll (Context.carries_eq _)
  · exact fun s _ => ⟨fun k _ _ _ hr => by rw [hr], fun k _ => Context.carries_eq k⟩
  · exact fun s _ => Stmt.runsAlike_of_load (Context.carries_eq _) h hp s

/-- Includes run alike if the statements of all of them respect the relation. The second run may
have more levels left, if it does not count that the first has too few. -/
theorem mirrors_load {more : Nat} (hl : Carries R "forloop") (hi : Carries R "include")
    (h : ∀ name source, env.source? name = some source →
      ∀ s ∈ Stmt.partsAll (Template.parse source).children, s.Respects R)
    (hp : ∀ e site, P (Error.locate e site) → P e) (hd : more = 0 ∨ ¬ P (.tooDeep env.limit)) :
    ∀ left name, Mirrors P R (env.load now left name) (env.load now (left + more) name) := by
  intro left
  induction left with
  | zero =>
    intro name
    rcases hd with rfl | hd
    · exact Render.mirrors_fail _
    · exact fun a b _ he => absurd (he _ rfl) hd
  | succ left ih =>
    intro name
    rw [Nat.succ_add, load, load]
    rcases hs : env.source? name with _ | source
    · exact Render.mirrors_fail _
    · exact Stmt.mirrors_runAll hl _ (h name source hs) fun s _ => Stmt.runsAlike_of_load hi ih hp s

theorem mirrors_render {source : String} (hl : Carries R "forloop") (hi : Carries R "include")
    (h : ∀ s ∈ env.stmts source, s.Respects R) (hp : ∀ e site, P (Error.locate e site) → P e)
    (name : String) : Mirrors P R (env.render now name source) (env.render now name source) := by
  have hload : ∀ inner, Mirrors P R (env.load now env.limit inner) (env.load now env.limit inner) :=
    mirrors_load hl hi (fun _ _ hf s hm => h s (mem_stmts_of_source? hf hm)) hp (.inl rfl) env.limit
  exact Stmt.mirrors_runAll hl _ (fun s hm => h s (mem_stmts hm))
    fun s _ => Stmt.runsAlike_of_load hi hload hp s

/-- Renders of a template agree, and leave contexts that agree, on the variables that are looked up
in it and in the includes. -/
theorem render_agree {source : String} {a b : Context} (h : AgreeOn (env.names source) a b)
    (now : Instant) (name : String) :
    (env.render now name source a).1 = (env.render now name source b).1 ∧
      AgreeOn (env.names source) (env.render now name source a).2
        (env.render now name source b).2 := by
  have hc := Context.carries_agreeOn (env.names source)
  have hs : ∀ s ∈ env.stmts source, s.Respects (AgreeOn (env.names source)) :=
    fun s hs => ⟨fun k hk _ _ hr => hr k (mem_names hs hk), fun k _ => hc k⟩
  have hm : Mirrors (fun _ => True) (AgreeOn (env.names source)) (env.render now name source)
      (env.render now name source) :=
    mirrors_render (hc _) (hc _) hs (fun _ _ => id) name
  obtain ⟨h1, h2⟩ := hm a b h fun _ _ => trivial
  exact ⟨h1.symm, h2⟩

/-- an include in a loop, in contexts that differ in their order and in what is not looked up -/
theorem render_agree_loop :
    let env : Environment :=
      { includes := [("a", "{{ include.p }}{{ i | relative_url }}{% assign y = i %}")] }
    let source := "{% for i in x %}{% include a p=1 %}{% endfor %}"
    let a := Context.ofEntries [("x", .ofNat 1), ("y", .ofNat 2)]
    let b := Context.ofEntries [("z", .nil), ("x", .ofNat 1)]
    AgreeOn (env.names source) a b ∧ ∀ (now : Instant) (name : String),
      (env.render now name source a).1 = (env.render now name source b).1 ∧
        AgreeOn (env.names source) (env.render now name source a).2
          (env.render now name source b).2 := by
  intro env source a b
  have hn : env.names source = ["x", "include", "site", "i", "i"] := by decide +kernel
  have h : AgreeOn (env.names source) a b := by
    intro k hk
    rw [hn] at hk
    simp only [List.mem_cons, List.not_mem_nil, or_false] at hk
    rcases hk with rfl | rfl | rfl | rfl | rfl <;> rfl
  exact ⟨h, fun now name => render_agree h now name⟩

end Environment

end Stencil
