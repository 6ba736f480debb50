import Stencil.Entries
import Stencil.Value.Access

/-! The variables that a template is rendered with and that it changes. -/

namespace Stencil

/-- Variables in insertion order, each name once. -/
structure Context where
  entries : List (String × Value)
  nodup_keys : (Entries.keys entries).Nodup

namespace Context

def empty : Context := ⟨[], by simp [Entries.keys]⟩

instance : Inhabited Context := ⟨empty⟩

/-- Of a name that is listed twice the first place and the last value count. -/
def ofEntries (es : List (String × Value)) : Context := ⟨Entries.ofList es, Entries.nodup_ofList es⟩

def get? (ctx : Context) (name : String) : Option Value := ctx.entries.lookup name

def size (ctx : Context) : Nat := ctx.entries.length

/-- Binds a name. A bound name keeps its place. -/
def insert (ctx : Context) (name : String) (v : Value) : Context :=
  ⟨Entries.put name v ctx.entries, Entries.nodup_put ctx.nodup_keys⟩

def erase (ctx : Context) (name : String) : Context :=
  ⟨Entries.drop name ctx.entries, Entries.nodup_drop ctx.nodup_keys⟩

def insertAll (ctx : Context) (es : List (String × Value)) : Context :=
  ⟨Entries.putAll ctx.entries es, Entries.nodup_putAll ctx.nodup_keys⟩

/-- Puts back what a name was bound to before a block. Nil is no binding: it is erased. -/
def restore (ctx : Context) (name : String) : Option Value → Context
  | none => ctx.erase name
  | some .nil => ctx.erase name
  | some v => ctx.insert name v

/-- Follows a path: a variable, then attributes. What is missing is nil. -/
def resolve (ctx : Context) : List String → Value
  | [] => .nil
  | name :: path =>
    (path.foldl (fun v segment => v.bind (·.attr? segment)) (ctx.get? name)).getD .nil

def lookup (ctx : Context) (path : String) : Value :=
  ctx.resolve ((Text.pieces '.' path.toList).map .ofList)

def toValue (ctx : Context) : Value := .map ctx.entries

/-- Two contexts are equal if they bind the same names to equal values, in any order. -/
instance : BEq Context := ⟨fun a b => a.toValue == b.toValue⟩

@[ext] theorem ext {a b : Context} (h : a.entries = b.entries) : a = b := by
  cases a; cases b; simp_all

theorem get?_insert (ctx : Context) (k k' : String) (v : Value) :
    (ctx.insert k v).get? k' = if k' = k then some v else ctx.get? k' :=
  Entries.lookup_put k k' v ctx.entries

theorem get?_erase (ctx : Context) (k k' : String) :
    (ctx.erase k).get? k' = if k' = k then none else ctx.get? k' :=
  Entries.lookup_drop k k' ctx.entries

theorem restore_erase_or_insert (name : String) (v : Option Value) :
    (∀ ctx : Context, ctx.restore name v = ctx.erase name) ∨
      ∃ w, ∀ ctx : Context, ctx.restore name v = ctx.insert name w := by
  rcases v with _ | v
  · exact .inl fun _ => rfl
  · cases v with
    | nil => exact .inl fun _ => rfl
    | _ => exact .inr ⟨_, fun _ => rfl⟩

theorem get?_restore (ctx : Context) (k k' : String) (v : Option Value) :
    (ctx.restore k v).get? k' = if k' = k then v.filter (!·.isNil) else ctx.get? k' := by
  rcases v with _ | v
  · exact get?_erase ctx k k'
  · cases v with
    | nil => exact get?_erase ctx k k'
    | _ => exact get?_insert ctx k k' _

theorem insert_insert (ctx : Context) (k : String) (v w : Value) :
    (ctx.insert k w).insert k v = ctx.insert k v :=
  ext (Entries.put_put k v w ctx.entries)

theorem insert_of_get? {ctx : Context} {k : String} {v : Value} (h : ctx.get? k = some v) :
    ctx.insert k v = ctx :=
  ext (Entries.put_of_lookup h)

theorem insert_comm {ctx : Context} {k k' : String} (hk : k ≠ k') (h : (ctx.get? k).isSome)
    (v w : Value) : (ctx.insert k' w).insert k v = (ctx.insert k v).insert k' w :=
  ext (Entries.put_comm hk h v w)

theorem erase_insert (ctx : Context) (k : String) (v : Value) :
    (ctx.insert k v).erase k = ctx.erase k :=
  ext (Entries.drop_put k v ctx.entries)

theorem erase_insert_comm (ctx : Context) {k k' : String} (hk : k ≠ k') (v : Value) :
    (ctx.insert k' v).erase k = (ctx.erase k).insert k' v :=
  ext (Entries.drop_put_comm hk v ctx.entries)

theorem erase_comm (ctx : Context) (k k' : String) :
    (ctx.erase k').erase k = (ctx.erase k).erase k' :=
  ext (by simp only [erase, Entries.drop, List.filter_filter, Bool.and_comm])

theorem erase_of_get? {ctx : Context} {k : String} (h : ctx.get? k = none) : ctx.erase k = ctx :=
  ext (Entries.drop_of_lookup h)

theorem restore_insert (ctx : Context) (k : String) (v : Option Value) (w : Value) :
    (ctx.insert k w).restore k v = ctx.restore k v := by
  rcases restore_erase_or_insert k v with h | ⟨v', h⟩
  · rw [h, h, erase_insert]
  · rw [h, h, insert_insert]

theorem restore_insert_comm {ctx : Context} {k k' : String} (hk : k ≠ k')
    (hb : (ctx.get? k).isSome) (v : Option Value) (w : Value) :
    (ctx.insert k' w).restore k v = (ctx.restore k v).insert k' w := by
  rcases restore_erase_or_insert k v with h | ⟨v', h⟩
  · rw [h, h, erase_insert_comm ctx hk]
  · rw [h, h, insert_comm hk hb]

theorem restore_erase_comm (ctx : Context) {k k' : String} (hk : k ≠ k') (v : Option Value) :
    (ctx.erase k').restore k v = (ctx.restore k v).erase k' := by
  rcases restore_erase_or_insert k v with h | ⟨v', h⟩
  · rw [h, h, erase_comm]
  · rw [h, h, erase_insert_comm ctx (Ne.symm hk)]

theorem restore_get? {ctx : Context} {k : String} (h : ctx.get? k ≠ some .nil) :
    ctx.restore k (ctx.get? k) = ctx := by
  rcases hv : ctx.get? k with _ | v
  · exact erase_of_get? hv
  · cases v with
    | nil => exact absurd hv h
    | _ => exact insert_of_get? hv

end Context

end Stencil
