import Stencil.Condition.Eval
import Stencil.Environment
import Stencil.Proofs.Parts

/-! The names in templates: the variables that statements look up, and those that tags bind. What an
expression or a condition makes of a context depends on the variables alone that it looks up. -/

namespace Stencil

open Calendar (Instant)

variable {now : Instant} {a b : Context}

theorem Context.resolve_eq {segments : List String}
    (h : ∀ k ∈ segments.head?, a.get? k = b.get? k) : a.resolve segments = b.resolve segments := by
  cases segments with
  | nil => rfl
  | cons k path =>
    have hk := h k rfl
    rw [resolve, resolve, hk]

namespace Filter

def names (name : String) : List String := if name = "relative_url" then ["site"] else []

theorem apply_congr {name : String} (h : ∀ k ∈ names name, a.get? k = b.get? k) (v : Value)
    (args : List Value) : apply now a name v args = apply now b name v args := by
  by_cases hn : name = "relative_url"
  · subst hn
    have hs : ∀ ctx : Context, ctx.lookup "site.baseurl" = ctx.resolve ["site", "baseurl"] :=
      fun _ => rfl
    have hr : a.resolve ["site", "baseurl"] = b.resolve ["site", "baseurl"] := by
      apply Context.resolve_eq
      intro k hk
      exact h k (by simpa [names, eq_comm] using hk)
    simp only [apply, hs, hr]
  · rw [apply.eq_def, apply.eq_def]
    split
    case h_2 => exact absurd rfl hn
    all_goals rfl

end Filter

namespace Expr

mutual

/-- The variables that the value of an expression depends on: those that its paths start with and
those that its filters look up. -/
def names : Expr → List String
  | const _ => []
  | path segments => segments.head?.toList
  | filter e name args => Filter.names name ++ names e ++ namesAll args

def namesAll : List Expr → List String
  | [] => []
  | e :: es => names e ++ namesAll es

end

mutual

theorem eval_congr (e : Expr) (h : ∀ k ∈ e.names, a.get? k = b.get? k) :
    e.eval now a = e.eval now b := by
  cases e with
  | const v => rfl
  | path segments =>
    rw [eval, eval]
    apply Context.resolve_eq
    intro k hk
    exact h k (by simpa [names] using hk)
  | filter e name args =>
    have he := eval_congr e fun k hk => h k (by simp [names, hk])
    have ha := evalArgs_congr args fun k hk => h k (by simp [names, hk])
    rw [eval, eval, he, ha]
    exact Filter.apply_congr (fun k hk => h k (by simp [names, hk])) _ _

theorem evalArgs_congr (es : List Expr) (h : ∀ k ∈ namesAll es, a.get? k = b.get? k) :
    evalArgs now a es = evalArgs now b es := by
  cases es with
  | nil => rfl
  | cons e es =>
    have he := eval_congr e fun k hk => h k (by simp [namesAll, hk])
    have hr := evalArgs_congr es fun k hk => h k (by simp [namesAll, hk])
    rw [evalArgs, evalArgs, he, hr]

end

end Expr

namespace Clause

def names : Clause → List String
  | empty => []
  | contains l r => l.names ++ r.names
  | compare _ l r => l.names ++ r.names
  | present e => e.names

theorem holds_congr (c : Clause) (h : ∀ k ∈ c.names, a.get? k = b.get? k) :
    c.holds now a = c.holds now b := by
  cases c with
  | empty => rfl
  | contains l r | compare op l r =>
    have hl : l.eval now a = l.eval now b := l.eval_congr fun k hk => h k (by simp [names, hk])
    have hr : r.eval now a = r.eval now b := r.eval_congr fun k hk => h k (by simp [names, hk])
    rw [holds, holds, hl, hr]
  | present e =>
    have he : e.eval now a = e.eval now b := e.eval_congr h
    rw [holds, holds, he]

end Clause

namespace Condition

def names (c : Condition) : List String :=
  c.alternatives.flatMap fun clauses => clauses.flatMap Clause.names

theorem holds_congr (c : Condition) (h : ∀ k ∈ c.names, a.get? k = b.get? k) :
    c.holds now a = c.holds now b := by
  have hc : ∀ clauses ∈ c.alternatives, ∀ clause ∈ clauses,
      clause.holds now a = clause.holds now b := by
    intro clauses hm clause hm'
    apply clause.holds_congr
    intro k hk
    exact h k (List.mem_flatMap.2 ⟨clauses, hm, List.mem_flatMap.2 ⟨clause, hm', hk⟩⟩)
  rw [holds, holds, Bool.eq_iff_iff]
  simp only [List.any_eq_true, List.all_eq_true]
  grind

end Condition

namespace Stmt

def names : Stmt → List String
  | output e _ => e.names
  | choice branches _ _ => branches.flatMap fun b => b.condition.names
  | loop _ items _ _ _ => items.names
  | assign _ e _ => e.names
  | _ => []

def assigned : Stmt → List String
  | assign target _ _ => [target]
  | _ => []

def looped : Stmt → List String
  | loop target _ _ _ _ => [target]
  | _ => []

instance (name : String) (s : Stmt) : Decidable (s.Binds name) :=
  match s with
  | assign target _ _ => inferInstanceAs (Decidable (target = name))
  | loop target _ _ _ _ => inferInstanceAs (Decidable (target = name))
  | text .. | output .. | rawTag .. | choice .. | inclusion .. => isFalse id

end Stmt

namespace Environment

/-- the statements of a template and of all includes, at any depth -/
def stmts (env : Environment) (source : String) : List Stmt :=
  (source :: env.includes.map (·.2)).flatMap fun s => Stmt.partsAll (Template.parse s).children

/-- the variables that a template and all includes look up -/
def names (env : Environment) (source : String) : List String :=
  (env.stmts source).flatMap Stmt.names

/-- the variables that assignments of a template and all includes bind, those of cases among them -/
def assigned (env : Environment) (source : String) : List String :=
  (env.stmts source).flatMap Stmt.assigned

def looped (env : Environment) (source : String) : List String :=
  (env.stmts source).flatMap Stmt.looped

variable {env : Environment} {source : String}

theorem mem_stmts {s : Stmt} (h : s ∈ Stmt.partsAll (Template.parse source).children) :
    s ∈ env.stmts source :=
  List.mem_flatMap.2 ⟨source, List.mem_cons_self, h⟩

theorem mem_includes_of_source? {name inner : String} (h : env.source? name = some inner) :
    inner ∈ env.includes.map (·.2) := by
  have hl : ∀ k, env.includes.lookup k = some inner → inner ∈ env.includes.map (·.2) := by
    intro k hk
    rw [List.lookup_eq_some_iff] at hk
    obtain ⟨before, after, he, -⟩ := hk
    simp [he]
  rcases Option.or_eq_some_iff.1 h with h | ⟨-, h⟩
  · exact hl _ h
  · exact hl _ h

theorem mem_stmts_of_source? {name inner : String} (h : env.source? name = some inner) {s : Stmt}
    (hs : s ∈ Stmt.partsAll (Template.parse inner).children) : s ∈ env.stmts source :=
  List.mem_flatMap.2 ⟨inner, List.mem_cons_of_mem _ (mem_includes_of_source? h), hs⟩

theorem mem_names {s : Stmt} {k : String} (hs : s ∈ env.stmts source) (hk : k ∈ s.names) :
    k ∈ env.names source :=
  List.mem_flatMap.2 ⟨s, hs, hk⟩

theorem mem_assigned {s : Stmt} {k : String} (hs : s ∈ env.stmts source) (hk : k ∈ s.assigned) :
    k ∈ env.assigned source :=
  List.mem_flatMap.2 ⟨s, hs, hk⟩

theorem mem_looped {s : Stmt} {k : String} (hs : s ∈ env.stmts source) (hk : k ∈ s.looped) :
    k ∈ env.looped source :=
  List.mem_flatMap.2 ⟨s, hs, hk⟩

end Environment

end Stencil
