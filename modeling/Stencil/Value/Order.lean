import Stencil.Value.Basic

/-! Comparing values: equality, the partial order that conditions ask for, and the total order that
sorting uses. An integer meets a float as the nearest double. -/

namespace Stencil.Value

def toDouble (n : Int64) : Float := .ofInt n.toInt

/-- The place of a double in the order of all doubles: by value, with -0 before 0 and NaN beyond
infinity. -/
def doubleRank (x : Float) : Int :=
  let bits := x.toBits.toNat
  if bits < Nat.pow 2 63 then bits else Int.pow 2 63 - 1 - bits

theorem sizeOf_lt_of_lookup {entries : List (String × Value)} {k : String} {a : Value}
    (h : entries.lookup k = some a) : sizeOf a < sizeOf entries := by
  obtain ⟨before, after, rfl, -⟩ := List.lookup_eq_some_iff.1 h
  have hm : (k, a) ∈ before ++ (k, a) :: after := List.mem_append_right _ (.head _)
  have hs : 1 + sizeOf k + sizeOf a < sizeOf (before ++ (k, a) :: after) :=
    List.sizeOf_lt_of_mem hm
  omega

mutual

/-- Equality of values. Numbers are equal by value, maps whatever their order. -/
def beq : Value → Value → Bool
  | nil, nil => true
  | bool a, bool b => a == b
  | int a, int b => a == b
  | int a, float b => toDouble a == b
  | float a, int b => a == toDouble b
  | float a, float b => a == b
  | text a, text b => a == b
  | seq as, seq bs => beqItems as bs
  | map as, map bs => as.length == bs.length && within as bs
  | _, _ => false
termination_by a b => sizeOf a + sizeOf b

def beqItems : List Value → List Value → Bool
  | [], [] => true
  | a :: as, b :: bs => beq a b && beqItems as bs
  | _, _ => false
termination_by as bs => sizeOf as + sizeOf bs

/-- Does the other map have an equal value under each key? What is looked up there is compared with
what stands here, in this order. -/
def within : List (String × Value) → List (String × Value) → Bool
  | [], _ => true
  | (k, a) :: as, bs =>
    (match _h : bs.lookup k with
      | some b => beq b a
      | none => false) && within as bs
termination_by as bs => sizeOf as + sizeOf bs
decreasing_by
  · have := sizeOf_lt_of_lookup _h
    simp only [List.cons.sizeOf_spec, Prod.mk.sizeOf_spec]
    omega
  · simp only [List.cons.sizeOf_spec]
    omega

end

theorem within_cons (k : String) (a : Value) (as bs : List (String × Value)) :
    within ((k, a) :: as) bs = ((bs.lookup k).any (beq · a) && within as bs) := by
  rw [within]
  congr 1
  split
  · rename_i h
    rw [h]
    rfl
  · rename_i h
    rw [h]
    rfl

instance : BEq Value := ⟨beq⟩

/-- The order of conditions: numbers among numbers and texts among texts, nothing else. NaN has no
order. -/
def partialOrder : Value → Value → Option Ordering
  | text a, text b => some (compare a b)
  | int a, int b => some (compare a b)
  | int a, float b => ofDoubles (toDouble a) b
  | float a, int b => ofDoubles a (toDouble b)
  | float a, float b => ofDoubles a b
  | _, _ => none
where
  ofDoubles (a b : Float) : Option Ordering :=
    if a < b then some .lt else if a == b then some .eq else if b < a then some .gt else none

mutual

/-- The total order: by kind, and within a kind by value. Sequences and maps are compared item by
item in their order. -/
def order : Value → Value → Ordering
  | bool a, bool b => compare a b
  | int a, int b => compare a b
  | int a, float b => compare (doubleRank (toDouble a)) (doubleRank b)
  | float a, int b => compare (doubleRank a) (doubleRank (toDouble b))
  | float a, float b => compare (doubleRank a) (doubleRank b)
  | text a, text b => compare a b
  | seq as, seq bs => orderItems as bs
  | map as, map bs => orderEntries as bs
  | a, b => compare a.kind.rank b.kind.rank

def orderItems : List Value → List Value → Ordering
  | [], [] => .eq
  | [], _ :: _ => .lt
  | _ :: _, [] => .gt
  | a :: as, b :: bs => (order a b).then (orderItems as bs)

def orderEntries : List (String × Value) → List (String × Value) → Ordering
  | [], [] => .eq
  | [], _ :: _ => .lt
  | _ :: _, [] => .gt
  | (k, a) :: as, (l, b) :: bs =>
    ((compare k l).then (order a b)).then (orderEntries as bs)

end

/-- Insertion into a list that holds its largest item first: an item goes before those it is not
less than. -/
def insertBy {α : Type} (cmp : α → α → Ordering) (x : α) : List α → List α
  | [] => [x]
  | y :: ys => if cmp x y == .lt then y :: insertBy cmp x ys else x :: y :: ys

/-- A stable sort: items are taken from the left and go behind all that they are not less than. -/
def sortBy {α : Type} (cmp : α → α → Ordering) (xs : List α) : List α :=
  (xs.foldl (fun sorted x => insertBy cmp x sorted) []).reverse

end Stencil.Value
