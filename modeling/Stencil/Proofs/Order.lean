import Stencil.Value.Order

/-! The total order of values beside their equality, for values without floats. The order tells
apart all values that are not the same, equality lets the entries of maps stand in any order: the
two agree where maps list their keys alike. -/

namespace Stencil.Value

open Std (LawfulEqOrd)

mutual

/-- Is there no float at any depth? -/
def isFloatless : Value → Bool
  | float _ => false
  | seq items => areFloatless items
  | map entries => haveNoFloat entries
  | _ => true

def areFloatless : List Value → Bool
  | [] => true
  | a :: as => a.isFloatless && areFloatless as

def haveNoFloat : List (String × Value) → Bool
  | [] => true
  | (_, a) :: as => a.isFloatless && haveNoFloat as

end

mutual

/-- Are the keys of each map distinct, at every depth? -/
def isKeyed : Value → Bool
  | seq items => areKeyed items
  | map entries => haveKeys entries
  | _ => true

def areKeyed : List Value → Bool
  | [] => true
  | a :: as => a.isKeyed && areKeyed as

def haveKeys : List (String × Value) → Bool
  | [] => true
  | (k, a) :: as => !(as.map (·.1)).contains k && a.isKeyed && haveKeys as

end

theorem haveKeys_cons {k : String} {a : Value} {as : List (String × Value)} :
    haveKeys ((k, a) :: as) = true ↔
      k ∉ as.map (·.1) ∧ a.isKeyed = true ∧ haveKeys as = true := by
  simp [haveKeys, and_assoc]

mutual

/-- Do maps at the same place list the same keys in the same order? -/
def Aligned : Value → Value → Prop
  | seq as, seq bs => AlignedItems as bs
  | map as, map bs => AlignedEntries as bs
  | _, _ => True

def AlignedItems : List Value → List Value → Prop
  | a :: as, b :: bs => Aligned a b ∧ AlignedItems as bs
  | _, _ => True

def AlignedEntries : List (String × Value) → List (String × Value) → Prop
  | (k, a) :: as, (l, b) :: bs => k = l ∧ Aligned a b ∧ AlignedEntries as bs
  | [], [] => True
  | _, _ => False

end

/-! Values that the order does not tell apart are the same. -/

mutual

theorem eq_of_order_eq {a b : Value} (ha : a.isFloatless = true) (hb : b.isFloatless = true)
    (h : order a b = .eq) : a = b := by
  cases a with
  | nil => cases b <;> simp_all [order, kind, Kind.rank]
  | bool x => cases b <;> simp_all [order, kind, Kind.rank]
  | int n => cases b <;> simp_all [order, kind, Kind.rank, isFloatless]
  | float x => cases ha
  | text s => cases b <;> simp_all [order, kind, Kind.rank]
  | seq as =>
    cases b with
    | seq bs => rw [eq_of_orderItems_eq ha hb h]
    | _ => simp [order, kind, Kind.rank] at h
  | map as =>
    cases b with
    | map bs => rw [eq_of_orderEntries_eq ha hb h]
    | _ => simp [order, kind, Kind.rank] at h

theorem eq_of_orderItems_eq {as bs : List Value} (ha : areFloatless as = true)
    (hb : areFloatless bs = true) (h : orderItems as bs = .eq) : as = bs := by
  match as, bs with
  | [], [] => rfl
  | [], _ :: _ => cases h
  | _ :: _, [] => cases h
  | a :: as, b :: bs =>
    rw [areFloatless, Bool.and_eq_true] at ha hb
    rw [orderItems, Ordering.then_eq_eq] at h
    rw [eq_of_order_eq ha.1 hb.1 h.1, eq_of_orderItems_eq ha.2 hb.2 h.2]

theorem eq_of_orderEntries_eq {as bs : List (String × Value)} (ha : haveNoFloat as = true)
    (hb : haveNoFloat bs = true) (h : orderEntries as bs = .eq) : as = bs := by
  match as, bs with
  | [], [] => rfl
  | [], _ :: _ => cases h
  | _ :: _, [] => cases h
  | (k, a) :: as, (l, b) :: bs =>
    rw [haveNoFloat, Bool.and_eq_true] at ha hb
    rw [orderEntries, Ordering.then_eq_eq, Ordering.then_eq_eq, LawfulEqOrd.compare_eq_iff_eq] at h
    rw [h.1.1, eq_of_order_eq ha.1 hb.1 h.1.2, eq_of_orderEntries_eq ha.2 hb.2 h.2]

end

mutual

theorem order_self {a : Value} (ha : a.isFloatless = true) : order a a = .eq := by
  cases a with
  | float x => cases ha
  | seq as => exact orderItems_self ha
  | map as => exact orderEntries_self ha
  | _ => simp [order]

theorem orderItems_self {as : List Value} (ha : areFloatless as = true) :
    orderItems as as = .eq := by
  match as with
  | [] => rfl
  | a :: as =>
    rw [areFloatless, Bool.and_eq_true] at ha
    rw [orderItems, order_self ha.1, orderItems_self ha.2]
    rfl

theorem orderEntries_self {as : List (String × Value)} (ha : haveNoFloat as = true) :
    orderEntries as as = .eq := by
  match as with
  | [] => rfl
  | (k, a) :: as =>
    rw [haveNoFloat, Bool.and_eq_true] at ha
    rw [orderEntries, LawfulEqOrd.compare_eq_iff_eq.2 rfl, order_self ha.1, orderEntries_self ha.2]
    rfl

end

/-! A value without floats is equal to itself, as long as its maps have a key for each entry. -/

theorem within_cons_of_not_mem {k : String} (b : Value) {as bs : List (String × Value)}
    (h : k ∉ as.map (·.1)) : within as ((k, b) :: bs) = within as bs := by
  induction as with
  | nil => rw [within, within]
  | cons p as ih =>
    rw [List.map_cons, List.mem_cons, not_or] at h
    rw [within_cons, within_cons, List.lookup_cons, beq_false_of_ne (Ne.symm h.1), ih h.2]

mutual

theorem beq_self {a : Value} (ha : a.isFloatless = true) (hk : a.isKeyed = true) :
    beq a a = true := by
  cases a with
  | float x => cases ha
  | seq as =>
    rw [beq]
    exact beqItems_self ha hk
  | map as => simp [beq, within_self ha hk]
  | _ => simp [beq]

theorem beqItems_self {as : List Value} (ha : areFloatless as = true) (hk : areKeyed as = true) :
    beqItems as as = true := by
  match as with
  | [] => rw [beqItems]
  | a :: as =>
    rw [areFloatless, Bool.and_eq_true] at ha
    rw [areKeyed, Bool.and_eq_true] at hk
    rw [beqItems, beq_self ha.1 hk.1, beqItems_self ha.2 hk.2]
    rfl

theorem within_self {as : List (String × Value)} (ha : haveNoFloat as = true)
    (hk : haveKeys as = true) : within as as = true := by
  match as with
  | [] => rw [within]
  | (k, a) :: as =>
    rw [haveNoFloat, Bool.and_eq_true] at ha
    rw [haveKeys_cons] at hk
    rw [within_cons, within_cons_of_not_mem a hk.1, within_self ha.2 hk.2.2, List.lookup_cons,
      beq_self_eq_true]
    simp [beq_self ha.1 hk.2.1]

end

mutual

theorem aligned_self (a : Value) : Aligned a a := by
  cases a with
  | seq as => exact alignedItems_self as
  | map as => exact alignedEntries_self as
  | _ => trivial

theorem alignedItems_self (as : List Value) : AlignedItems as as := by
  match as with
  | [] => trivial
  | a :: as => exact ⟨aligned_self a, alignedItems_self as⟩

theorem alignedEntries_self (as : List (String × Value)) : AlignedEntries as as := by
  match as with
  | [] => trivial
  | (k, a) :: as => exact ⟨rfl, aligned_self a, alignedEntries_self as⟩

end

mutual

theorem aligned_symm {a b : Value} (h : Aligned a b) : Aligned b a := by
  cases a with
  | seq as =>
    cases b with
    | seq bs => exact alignedItems_symm h
    | _ => trivial
  | map as =>
    cases b with
    | map bs => exact alignedEntries_symm h
    | _ => trivial
  | _ => cases b <;> trivial

theorem alignedItems_symm {as bs : List Value} (h : AlignedItems as bs) : AlignedItems bs as := by
  match as, bs with
  | [], [] | [], _ :: _ | _ :: _, [] => trivial
  | a :: as, b :: bs => exact ⟨aligned_symm h.1, alignedItems_symm h.2⟩

theorem alignedEntries_symm {as bs : List (String × Value)} (h : AlignedEntries as bs) :
    AlignedEntries bs as := by
  match as, bs with
  | [], [] => trivial
  | [], _ :: _ | _ :: _, [] => exact h.elim
  | (_, a) :: as, (_, b) :: bs => exact ⟨h.1.symm, aligned_symm h.2.1, alignedEntries_symm h.2.2⟩

end

/-! Equal values are the same as far as their maps list their keys alike. -/

theorem keys_eq_of_aligned {as bs : List (String × Value)} (h : AlignedEntries as bs) :
    as.map (·.1) = bs.map (·.1) := by
  match as, bs with
  | [], [] => rfl
  | [], _ :: _ => exact h.elim
  | _ :: _, [] => exact h.elim
  | (k, _) :: as, (l, _) :: bs => rw [List.map_cons, List.map_cons, h.1, keys_eq_of_aligned h.2.2]

mutual

theorem eq_of_beq_of_aligned {a b : Value} (ha : a.isFloatless = true) (hb : b.isFloatless = true)
    (hka : a.isKeyed = true) (hkb : b.isKeyed = true) (h : beq a b = true) (hal : Aligned a b) :
    a = b := by
  cases a with
  | nil => cases b <;> simp_all [beq]
  | bool x => cases b <;> simp_all [beq]
  | int n => cases b <;> simp_all [beq, isFloatless]
  | float x => cases ha
  | text s => cases b <;> simp_all [beq]
  | seq as =>
    cases b with
    | seq bs =>
      rw [beq] at h
      rw [eq_of_beqItems_of_aligned ha hb hka hkb h hal]
    | _ => simp [beq] at h
  | map as =>
    cases b with
    | map bs =>
      rw [beq, Bool.and_eq_true] at h
      rw [eq_of_within_of_aligned ha hb hka hkb h.2 hal]
    | _ => simp [beq] at h
termination_by sizeOf a + sizeOf b

theorem eq_of_beqItems_of_aligned {as bs : List Value} (ha : areFloatless as = true)
    (hb : areFloatless bs = true) (hka : areKeyed as = true) (hkb : areKeyed bs = true)
    (h : beqItems as bs = true) (hal : AlignedItems as bs) : as = bs := by
  match as, bs with
  | [], [] => rfl
  | [], _ :: _ => simp [beqItems] at h
  | _ :: _, [] => simp [beqItems] at h
  | a :: as, b :: bs =>
    rw [areFloatless, Bool.and_eq_true] at ha hb
    rw [areKeyed, Bool.and_eq_true] at hka hkb
    rw [beqItems, Bool.and_eq_true] at h
    rw [eq_of_beq_of_aligned ha.1 hb.1 hka.1 hkb.1 h.1 hal.1,
      eq_of_beqItems_of_aligned ha.2 hb.2 hka.2 hkb.2 h.2 hal.2]
termination_by sizeOf as + sizeOf bs

theorem eq_of_within_of_aligned {as bs : List (String × Value)} (ha : haveNoFloat as = true)
    (hb : haveNoFloat bs = true) (hka : haveKeys as = true) (hkb : haveKeys bs = true)
    (h : within as bs = true) (hal : AlignedEntries as bs) : as = bs := by
  match as, bs with
  | [], [] => rfl
  | [], _ :: _ => exact hal.elim
  | _ :: _, [] => exact hal.elim
  | (k, a) :: as, (l, b) :: bs =>
    obtain ⟨rfl, hab, hal⟩ := hal
    rw [haveNoFloat, Bool.and_eq_true] at ha hb
    rw [haveKeys_cons] at hka hkb
    -- the key stands nowhere behind, so the entries behind are looked up among those behind
    rw [within_cons, Bool.and_eq_true, List.lookup_cons, beq_self_eq_true,
      within_cons_of_not_mem b (keys_eq_of_aligned hal ▸ hka.1)] at h
    have hba : beq b a = true := h.1
    rw [eq_of_beq_of_aligned hb.1 ha.1 hkb.2.1 hka.2.1 hba (aligned_symm hab),
      eq_of_within_of_aligned ha.2 hb.2 hka.2.2 hkb.2.2 h.2 hal]
termination_by sizeOf as + sizeOf bs

end

/-- The order finds two values equal if they are equal and their maps list the same keys in the
same order, and only then. -/
theorem order_eq_iff_beq_and_aligned {a b : Value} (ha : a.isFloatless = true)
    (hb : b.isFloatless = true) (hka : a.isKeyed = true) (hkb : b.isKeyed = true) :
    order a b = .eq ↔ beq a b = true ∧ Aligned a b := by
  constructor
  · intro h
    obtain rfl := eq_of_order_eq ha hb h
    exact ⟨beq_self ha hka, aligned_self a⟩
  · rintro ⟨h, hal⟩
    obtain rfl := eq_of_beq_of_aligned ha hb hka hkb h hal
    exact order_self ha

/-- equal values of which the inner maps list their keys in other orders -/
theorem order_eq_iff_beq_and_aligned_nested :
    let a : Value := .seq [.map [("x", .int 1), ("y", .map [("u", .nil), ("v", .text "t")])]]
    let b : Value := .seq [.map [("x", .int 1), ("y", .map [("v", .text "t"), ("u", .nil)])]]
    a.isFloatless = true ∧ b.isFloatless = true ∧ a.isKeyed = true ∧ b.isKeyed = true ∧
      order a b ≠ .eq ∧ beq a b = true ∧ ¬ Aligned a b := by
  intro a b
  have ha : a.isFloatless = true := by decide
  have hb : b.isFloatless = true := by decide
  have hka : a.isKeyed = true := by decide
  have hkb : b.isKeyed = true := by decide
  have ho : order a b ≠ .eq := by decide +kernel
  have he : beq a b = true := by decide +kernel
  refine ⟨ha, hb, hka, hkb, ho, he, fun hal => ho ?_⟩
  exact (order_eq_iff_beq_and_aligned ha hb hka hkb).2 ⟨he, hal⟩

/-- maps that are equal, but not for the order -/
theorem order_ne_eq_of_entries_swapped :
    let a : Value := .map [("a", .int 1), ("b", .int 2)]
    let b : Value := .map [("b", .int 2), ("a", .int 1)]
    a.isFloatless = true ∧ b.isFloatless = true ∧ a.isKeyed = true ∧ b.isKeyed = true ∧
      beq a b = true ∧ order a b = .lt := by
  decide +kernel

end Stencil.Value
