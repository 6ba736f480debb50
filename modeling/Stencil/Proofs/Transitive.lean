import Stencil.Proofs.Double
import Stencil.Proofs.Order

/-! Where the total order is transitive. Integers meet floats as the nearest double, so a float that
is the nearest double of two integers stands level with both of them, while they do not stand level
with each other. Such floats are the only obstacle. -/

namespace Stencil.Value

open Std (TransCmp TransOrd)

/-- what two comparisons in a row tell of the comparison of the outer two: it is not the other way
round, and is even only if both of them are -/
def Chain (p q r : Ordering) : Prop :=
  p ≠ .gt → q ≠ .gt → r ≠ .gt ∧ (r = .eq → p = .eq ∧ q = .eq)

theorem Chain.eq : Chain .eq .eq .eq := fun _ _ => ⟨nofun, fun _ => ⟨rfl, rfl⟩⟩

theorem Chain.of_lt {p q r : Ordering} (h : p ≠ .gt → q ≠ .gt → r = .lt) : Chain p q r := by
  intro hp hq
  simp [h hp hq]

/-- Chains are kept by comparing one thing after the other, where the second thing counts only if
the first is even. -/
theorem Chain.then {p q r p' q' r' : Ordering} (h : Chain p q r)
    (h' : p = .eq → q = .eq → Chain p' q' r') : Chain (p.then p') (q.then q') (r.then r') := by
  intro hp hq
  have hp1 : p ≠ .gt := by
    rintro rfl
    exact hp rfl
  have hq1 : q ≠ .gt := by
    rintro rfl
    exact hq rfl
  obtain ⟨hr, he⟩ := h hp1 hq1
  cases r with
  | lt => simp
  | gt => exact absurd rfl hr
  | eq =>
    -- both first parts are even, so the second parts decide all three
    obtain ⟨rfl, rfl⟩ := he rfl
    exact h' rfl rfl hp hq

theorem chain_compare {α : Type} [Ord α] [TransOrd α] (a b c : α) :
    Chain (compare a b) (compare b c) (compare a c) := by
  intro hp hq
  have hab := Ordering.isLE_iff_ne_gt.2 hp
  have hbc := Ordering.isLE_iff_ne_gt.2 hq
  refine ⟨Ordering.isLE_iff_ne_gt.1 (TransOrd.isLE_trans hab hbc), fun hr => ?_⟩
  cases h : compare a b with
  | gt => exact absurd h hp
  | lt => simp [TransCmp.lt_of_lt_of_isLE h hbc] at hr
  | eq =>
    rw [TransCmp.congr_left h] at hr
    exact ⟨rfl, hr⟩

mutual

/-- Are all integers in `S` and all floats in `F`, at every depth? -/
def HasNumbers (S : Int64 → Prop) (F : Float → Prop) : Value → Prop
  | int n => S n
  | float x => F x
  | seq items => HaveNumbers S F items
  | map entries => HaveNumbersIn S F entries
  | _ => True

def HaveNumbers (S : Int64 → Prop) (F : Float → Prop) : List Value → Prop
  | [] => True
  | a :: as => HasNumbers S F a ∧ HaveNumbers S F as

def HaveNumbersIn (S : Int64 → Prop) (F : Float → Prop) : List (String × Value) → Prop
  | [] => True
  | (_, a) :: as => HasNumbers S F a ∧ HaveNumbersIn S F as

end

mutual

theorem hasNumbers_of_isFloatless {a : Value} (h : a.isFloatless = true) :
    HasNumbers (fun _ => True) (fun _ => False) a := by
  cases a with
  | float x => cases h
  | seq items => exact haveNumbers_of_areFloatless h
  | map entries => exact haveNumbersIn_of_haveNoFloat h
  | _ => trivial

theorem haveNumbers_of_areFloatless {as : List Value} (h : areFloatless as = true) :
    HaveNumbers (fun _ => True) (fun _ => False) as := by
  match as with
  | [] => trivial
  | a :: as =>
    rw [areFloatless, Bool.and_eq_true] at h
    exact ⟨hasNumbers_of_isFloatless h.1, haveNumbers_of_areFloatless h.2⟩

theorem haveNumbersIn_of_haveNoFloat {as : List (String × Value)} (h : haveNoFloat as = true) :
    HaveNumbersIn (fun _ => True) (fun _ => False) as := by
  match as with
  | [] => trivial
  | (k, a) :: as =>
    rw [haveNoFloat, Bool.and_eq_true] at h
    exact ⟨hasNumbers_of_isFloatless h.1, haveNumbersIn_of_haveNoFloat h.2⟩

end

/-- No float of `F` is the nearest double of two integers of `S`. -/
def Separated (S : Int64 → Prop) (F : Float → Prop) : Prop :=
  ∀ x m n, F x → S m → S n → toDouble m = x → toDouble n = x → m = n

theorem order_of_kind_ne {a b : Value} (h : a.kind ≠ b.kind) :
    order a b = compare a.kind.rank b.kind.rank := by
  cases a <;> cases b <;> first | rfl | exact absurd rfl h

theorem Kind.rank_injective {k l : Kind} (h : k.rank = l.rank) : k = l := by
  cases k <;> cases l <;> first | rfl | cases h

theorem rank_le_of_order {a b : Value} (h : order a b ≠ .gt) : a.kind.rank ≤ b.kind.rank := by
  by_cases hk : a.kind = b.kind
  · exact Nat.le_of_eq (congrArg Kind.rank hk)
  · rw [order_of_kind_ne hk] at h
    exact Nat.compare_ne_gt.1 h

theorem order_chain_of_kind_ne {a b c : Value} (h : a.kind ≠ b.kind ∨ b.kind ≠ c.kind) :
    Chain (order a b) (order b c) (order a c) := by
  refine .of_lt fun hab hbc => ?_
  have h1 := rank_le_of_order hab
  have h2 := rank_le_of_order hbc
  have hlt : a.kind.rank < c.kind.rank := by
    have hne := h.imp (mt Kind.rank_injective) (mt Kind.rank_injective)
    omega
  rw [order_of_kind_ne fun h => Nat.ne_of_lt hlt (congrArg Kind.rank h)]
  exact Nat.compare_eq_lt.2 hlt

/-! Numbers are compared as doubles first, and integers with the same nearest double as integers. -/

def numberRank : Value → Int
  | int n => doubleRank (toDouble n)
  | float x => doubleRank x
  | _ => 0

/-- the order of numbers with the same double -/
def orderLevel : Value → Value → Ordering
  | int m, int n => compare m n
  | _, _ => .eq

theorem lt_of_doubleRank_lt {m n : Int64} (h : doubleRank (toDouble m) < doubleRank (toDouble n)) :
    m < n := by
  rw [← Int64.not_le, Int64.le_iff_toInt_le]
  exact fun hle => Int.not_le.2 h (doubleRank_toDouble_mono hle)

theorem order_numbers {a b : Value} (ha : a.kind = .number) (hb : b.kind = .number) :
    order a b = (compare (numberRank a) (numberRank b)).then (orderLevel a b) := by
  cases a with
  | int m =>
    cases b with
    | int n =>
      cases h : compare (numberRank (int m)) (numberRank (int n)) with
      | eq => rfl
      | lt => exact Std.compare_eq_lt.2 (lt_of_doubleRank_lt (Std.compare_eq_lt.1 h))
      | gt => exact Std.compare_eq_gt.2 (lt_of_doubleRank_lt (Std.compare_eq_gt.1 h))
    | float y => exact Ordering.then_eq.symm
    | _ => cases hb
  | float x =>
    cases b with
    | int n => exact Ordering.then_eq.symm
    | float y => exact Ordering.then_eq.symm
    | _ => cases hb
  | _ => cases ha

section

variable {S : Int64 → Prop} {F : Float → Prop}

theorem orderLevel_eq (hs : Separated S F) {a b : Value} {x : Float} (hx : F x)
    (ha : HasNumbers S F a) (hb : HasNumbers S F b) (hax : numberRank a = doubleRank x)
    (hbx : numberRank b = doubleRank x) : orderLevel a b = .eq := by
  cases a with
  | int m =>
    cases b with
    | int n =>
      have hmn := hs x m n hx ha hb (doubleRank_injective hax) (doubleRank_injective hbx)
      exact Std.compare_eq_iff_eq.2 hmn
    | _ => rfl
  | _ => rfl

theorem orderLevel_chain (hs : Separated S F) {a b c : Value} (hka : a.kind = .number)
    (hkb : b.kind = .number) (hkc : c.kind = .number) (ha : HasNumbers S F a)
    (hb : HasNumbers S F b) (hc : HasNumbers S F c) (hab : numberRank a = numberRank b)
    (hbc : numberRank b = numberRank c) :
    Chain (orderLevel a b) (orderLevel b c) (orderLevel a c) := by
  by_cases hx : ∃ x, F x ∧ numberRank b = doubleRank x
  · obtain ⟨x, hx, hbx⟩ := hx
    have hax := hab.trans hbx
    have hcx := hbc.symm.trans hbx
    rw [orderLevel_eq hs hx ha hb hax hbx, orderLevel_eq hs hx hb hc hbx hcx,
      orderLevel_eq hs hx ha hc hax hcx]
    exact .eq
  · -- no float is at this level, so all three are integers
    cases a with
    | int m =>
      cases b with
      | int n =>
        cases c with
        | int k => exact chain_compare m n k
        | float x => exact absurd ⟨x, hc, hbc⟩ hx
        | _ => cases hkc
      | float x => exact absurd ⟨x, hb, rfl⟩ hx
      | _ => cases hkb
    | float x => exact absurd ⟨x, ha, hab.symm⟩ hx
    | _ => cases hka

theorem orderNumbers_chain (hs : Separated S F) {a b c : Value} (hka : a.kind = .number)
    (hkb : b.kind = .number) (hkc : c.kind = .number) (ha : HasNumbers S F a)
    (hb : HasNumbers S F b) (hc : HasNumbers S F c) :
    Chain (order a b) (order b c) (order a c) := by
  rw [order_numbers hka hkb, order_numbers hkb hkc, order_numbers hka hkc]
  refine (chain_compare _ _ _).then fun hab hbc => ?_
  exact orderLevel_chain hs hka hkb hkc ha hb hc (Std.LawfulEqOrd.eq_of_compare hab)
    (Std.LawfulEqOrd.eq_of_compare hbc)

mutual

theorem order_chain (hs : Separated S F) {a b c : Value} (ha : HasNumbers S F a)
    (hb : HasNumbers S F b) (hc : HasNumbers S F c) :
    Chain (order a b) (order b c) (order a c) := by
  by_cases hk : a.kind = b.kind ∧ b.kind = c.kind
  · cases a with
    | nil =>
      cases b with
      | nil =>
        cases c with
        | nil => exact .eq
        | _ => cases hk.2
      | _ => cases hk.1
    | bool x =>
      cases b with
      | bool y =>
        cases c with
        | bool z => exact chain_compare x y z
        | _ => cases hk.2
      | _ => cases hk.1
    | int m => exact orderNumbers_chain hs rfl hk.1.symm (hk.1.trans hk.2).symm ha hb hc
    | float x => exact orderNumbers_chain hs rfl hk.1.symm (hk.1.trans hk.2).symm ha hb hc
    | text x =>
      cases b with
      | text y =>
        cases c with
        | text z => exact chain_compare x y z
        | _ => cases hk.2
      | _ => cases hk.1
    | seq as =>
      cases b with
      | seq bs =>
        cases c with
        | seq cs => exact orderItems_chain hs ha hb hc
        | _ => cases hk.2
      | _ => cases hk.1
    | map as =>
      cases b with
      | map bs =>
        cases c with
        | map cs => exact orderEntries_chain hs ha hb hc
        | _ => cases hk.2
      | _ => cases hk.1
  · exact order_chain_of_kind_ne (Decidable.not_and_iff_or_not.1 hk)

theorem orderItems_chain (hs : Separated S F) {as bs cs : List Value} (ha : HaveNumbers S F as)
    (hb : HaveNumbers S F bs) (hc : HaveNumbers S F cs) :
    Chain (orderItems as bs) (orderItems bs cs) (orderItems as cs) := by
  match as, bs, cs with
  | [], [], [] => exact .eq
  | [], [], _ :: _ => exact .of_lt fun _ _ => rfl
  | [], _ :: _, [] => exact fun _ hq => absurd rfl hq
  | [], _ :: _, _ :: _ => exact .of_lt fun _ _ => rfl
  | _ :: _, [], _ => exact fun hp => absurd rfl hp
  | _ :: _, _ :: _, [] => exact fun _ hq => absurd rfl hq
  | a :: as, b :: bs, c :: cs =>
    exact (order_chain hs ha.1 hb.1 hc.1).then fun _ _ => orderItems_chain hs ha.2 hb.2 hc.2

theorem orderEntries_chain (hs : Separated S F) {as bs cs : List (String × Value)}
    (ha : HaveNumbersIn S F as) (hb : HaveNumbersIn S F bs) (hc : HaveNumbersIn S F cs) :
    Chain (orderEntries as bs) (orderEntries bs cs) (orderEntries as cs) := by
  match as, bs, cs with
  | [], [], [] => exact .eq
  | [], [], _ :: _ => exact .of_lt fun _ _ => rfl
  | [], _ :: _, [] => exact fun _ hq => absurd rfl hq
  | [], _ :: _, _ :: _ => exact .of_lt fun _ _ => rfl
  | _ :: _, [], _ => exact fun hp => absurd rfl hp
  | _ :: _, _ :: _, [] => exact fun _ hq => absurd rfl hq
  | (k, a) :: as, (l, b) :: bs, (m, c) :: cs =>
    have hkey : Chain ((compare k l).then (order a b)) ((compare l m).then (order b c))
        ((compare k m).then (order a c)) :=
      (chain_compare k l m).then fun _ _ => order_chain hs ha.1 hb.1 hc.1
    exact hkey.then fun _ _ => orderEntries_chain hs ha.2 hb.2 hc.2

end

end

/-- Comparing is transitive on all values made of some integers and some floats if and only if none
of these floats is the nearest double of two of these integers. -/
theorem order_trans_iff_separated (S : Int64 → Prop) (F : Float → Prop) :
    (∀ a b c, HasNumbers S F a → HasNumbers S F b → HasNumbers S F c →
        order a b ≠ .gt → order b c ≠ .gt → order a c ≠ .gt) ↔ Separated S F := by
  constructor
  · intro h x m n hx hm hn hmx hnx
    -- the float is level with both integers, so it can stand between them either way
    have hle : ∀ m n, S m → S n → toDouble m = x → toDouble n = x → m ≤ n := by
      intro m n hm hn hmx hnx
      have hmn := h (int m) (float x) (int n) hm hx hn (by simp [order, hmx]) (by simp [order, hnx])
      exact Std.isLE_compare.1 (Ordering.isLE_iff_ne_gt.2 hmn)
    exact Int64.le_antisymm (hle m n hm hn hmx hnx) (hle n m hn hm hnx hmx)
  · intro hs a b c ha hb hc hab hbc
    exact (order_chain hs ha hb hc hab hbc).1

/-- a float level with two integers that are not level with each other -/
theorem order_not_trans_of_level :
    let a : Value := .int 9007199254740993
    let b : Value := .float 9007199254740992
    let c : Value := .int 9007199254740992
    order a b = .eq ∧ order b c = .eq ∧ order a c = .gt := by
  decide +kernel

end Stencil.Value
