import Stencil.Data
import Stencil.Proofs.Equality

/-! Values as data of the host program. Data becomes a document and the document a value, each by a
recursion of its own; of a value that goes this way only floats that are not finite are lost. -/

namespace Stencil

namespace Value

mutual

/-- the value with nil for floats that are not finite, at any depth -/
def finite : Value → Value
  | float x => if x.isFinite then float x else nil
  | seq items => seq (finiteItems items)
  | map entries => map (finiteEntries entries)
  | v => v

def finiteItems : List Value → List Value
  | [] => []
  | v :: vs => v.finite :: finiteItems vs

def finiteEntries : List (String × Value) → List (String × Value)
  | [] => []
  | (k, v) :: es => (k, v.finite) :: finiteEntries es

end

theorem keys_finiteEntries (es : List (String × Value)) :
    Entries.keys (finiteEntries es) = Entries.keys es := by
  induction es with
  | nil => rfl
  | cons e es ih => exact congrArg (e.1 :: ·) ih

theorem exists_number (n : Int64) :
    ∃ m, Number.ofInteger? n.toInt = some m ∧ ofNumber m = int n := by
  have hlt : n.toInt < Int.pow 2 63 := n.toInt_lt
  have hle : -Int.pow 2 63 ≤ n.toInt := n.le_toInt
  have hpow : Int.pow 2 63 < Int.pow 2 64 := by decide
  by_cases h : 0 ≤ n.toInt
  · have hnat : n.toInt.toNat < Nat.pow 2 63 := by
      rw [Int.toNat_lt h]
      exact hlt
    have hsize : n.toInt.toNat < UInt64.size := Nat.lt_trans hnat (by decide)
    refine ⟨.natural (.ofNat n.toInt.toNat), if_pos ⟨h, Int.lt_trans hlt hpow⟩, ?_⟩
    rw [ofNumber, Number.toInt64?, UInt64.toNat_ofNat_of_lt' hsize, if_pos hnat,
      ← Int64.ofInt_eq_ofNat, Int.toNat_of_nonneg h, Int64.ofInt_toInt]
  · have hneg : -Int.pow 2 63 ≤ n.toInt ∧ n.toInt < 0 := ⟨hle, Int.not_le.1 h⟩
    rw [Number.ofInteger?, if_neg (fun hn => h hn.1), dif_pos hneg]
    exact ⟨_, rfl, congrArg int n.ofInt_toInt⟩

theorem ofDocument_ofDouble (x : Float) : ofDocument (Data.ofDouble x) = (float x).finite := by
  rw [Data.ofDouble, Number.ofDouble?, finite]
  by_cases h : x.isFinite = true
  · rw [dif_pos h, if_pos h]
    rfl
  · rw [dif_neg h, if_neg h]
    rfl

/-! The document of a value, with the entries of maps in their order, and the value of that. -/

mutual

theorem exists_document {v : Value} (h : v.isKeyed = true) :
    ∃ d, (Data.ofValue v).toDocument = .ok d ∧ ofDocument d = v.finite := by
  cases v with
  | int n =>
    obtain ⟨m, hm, hn⟩ := exists_number n
    exact ⟨.number m, by rw [Data.ofValue, Data.toDocument, Data.ofInteger, hm], hn⟩
  | float x => exact ⟨_, rfl, ofDocument_ofDouble x⟩
  | seq items =>
    obtain ⟨ds, hds, hvs⟩ := exists_documents h
    exact ⟨.seq ds, by rw [Data.ofValue, Data.toDocument, hds]; rfl, congrArg seq hvs⟩
  | map entries =>
    have hfirst : ∀ k ∈ Entries.keys entries, k ∉ Entries.keys ([] : List (String × Document)) :=
      fun _ _ => List.not_mem_nil
    obtain ⟨ms, hms, hes⟩ := exists_members h hfirst
    refine ⟨.map ms, by rw [Data.ofValue, Data.toDocument, hms]; rfl, ?_⟩
    have hkeys : (Entries.keys (finiteEntries entries)).Nodup := by
      rw [keys_finiteEntries]
      exact (haveKeys_iff.1 h).1
    rw [ofDocument, hes, Entries.ofList_of_nodup hkeys, finite]
  | _ => exact ⟨_, rfl, rfl⟩

theorem exists_documents {vs : List Value} (h : areKeyed vs = true) :
    ∃ ds, Data.toDocuments (Data.ofValues vs) = .ok ds ∧ ofDocuments ds = finiteItems vs := by
  match vs with
  | [] => exact ⟨[], rfl, rfl⟩
  | v :: vs =>
    rw [areKeyed, Bool.and_eq_true] at h
    obtain ⟨d, hd, hv⟩ := exists_document h.1
    obtain ⟨ds, hds, hvs⟩ := exists_documents h.2
    refine ⟨d :: ds, ?_, by rw [ofDocuments, hv, hvs, finiteItems]⟩
    rw [Data.ofValues, Data.toDocuments, hd, hds]
    rfl

theorem exists_members {es : List (String × Value)} {done : List (String × Document)}
    (h : haveKeys es = true) (hnew : ∀ k ∈ Entries.keys es, k ∉ Entries.keys done) :
    ∃ ms, Data.toMembers done (Data.ofEntries es) = .ok (done ++ ms) ∧
      ofMembers ms = finiteEntries es := by
  match es with
  | [] => exact ⟨[], by rw [List.append_nil]; rfl, rfl⟩
  | (k, v) :: es =>
    rw [haveKeys_cons] at h
    obtain ⟨d, hd, hv⟩ := exists_document h.2.1
    have hput := Entries.put_of_notMem (hnew k (.head _)) d
    -- the keys behind are written neither before nor by this entry
    have hbehind : ∀ l ∈ Entries.keys es, l ∉ Entries.keys (Entries.put k d done) := by
      intro l hl hmem
      rw [hput, Entries.keys, List.map_append, List.mem_append] at hmem
      rcases hmem with hmem | hmem
      · exact hnew l (.tail _ hl) hmem
      · have hlk : l = k := List.mem_singleton.1 hmem
        exact h.1 (hlk ▸ hl)
    obtain ⟨ms, hms, hes⟩ := exists_members h.2.2 hbehind
    refine ⟨(k, d) :: ms, ?_, by rw [ofMembers, hv, hes, finiteEntries]⟩
    rw [Data.ofEntries, Data.toMembers, Data.keyText, hd]
    show Data.toMembers (Entries.put k d done) (Data.ofEntries es) = _
    rw [hms, hput, List.append_assoc]
    rfl

end

theorem toValue_ofValue {v : Value} (h : v.isKeyed = true) :
    (Data.ofValue v).toValue = .ok v.finite := by
  obtain ⟨d, hd, hv⟩ := exists_document h
  rw [Data.toValue, hd, ← hv]
  rfl

theorem ofData_ofValue {v : Value} (h : v.isKeyed = true) : ofData (.ofValue v) = .ok v.finite := by
  rw [ofData, toValue_ofValue h]

theorem ofDataOrNil_ofValue {v : Value} (h : v.isKeyed = true) :
    ofDataOrNil (.ofValue v) = v.finite := by
  rw [ofDataOrNil, toValue_ofValue h]

end Value

def Context.finite (ctx : Context) : Context where
  entries := Value.finiteEntries ctx.entries
  nodup_keys := by
    rw [Value.keys_finiteEntries]
    exact ctx.nodup_keys

theorem Context.ofData_ofContext {ctx : Context} (h : ∀ e ∈ ctx.entries, e.2.isKeyed = true) :
    Context.ofData (.ofContext ctx) = .ok ctx.finite := by
  have hmap : Value.ofData (.ofContext ctx) = .ok (.map ctx.finite.entries) :=
    Value.ofData_ofValue (v := ctx.toValue) (Value.haveKeys_iff.2 ⟨ctx.nodup_keys, h⟩)
  rw [Context.ofData, hmap]
  exact congrArg Except.ok (Context.ext (Entries.ofList_of_nodup ctx.finite.nodup_keys))

/-- As data of the host program a value is read back as it was, and so are the variables of a
context: integers as integers, floats as floats, sequences and maps in their order. Only floats that
are not finite become nil. -/
theorem Data.roundTrip {v : Value} {ctx : Context} (hv : v.isKeyed = true)
    (hctx : ∀ e ∈ ctx.entries, e.2.isKeyed = true) :
    Value.ofData (.ofValue v) = .ok v.finite ∧ Value.ofDataOrNil (.ofValue v) = v.finite ∧
      Context.ofData (.ofContext ctx) = .ok ctx.finite :=
  ⟨Value.ofData_ofValue hv, Value.ofDataOrNil_ofValue hv, Context.ofData_ofContext hctx⟩

/-- the ends of the integers, a float that is whole and one that is not finite, in a nested map -/
theorem Data.roundTrip_nested :
    let infinity : Float := .ofBits 0x7ff0000000000000
    let v : Value := .map [("b", .seq [.int (-9223372036854775808), .int 9223372036854775807]),
      ("a", .map [("x", .float 2.0), ("y", .float infinity), ("z", .text "\u00e9")])]
    let w : Value := .map [("b", .seq [.int (-9223372036854775808), .int 9223372036854775807]),
      ("a", .map [("x", .float 2.0), ("y", .nil), ("z", .text "\u00e9")])]
    let ctx : Context := ⟨[("v", v)], by decide⟩
    v.isKeyed = true ∧ Value.ofData (.ofValue v) = .ok w ∧
      Context.ofData (.ofContext ctx) = .ok ⟨[("v", w)], by decide⟩ := by
  intro infinity v w ctx
  have hv : v.isKeyed = true := by decide
  have hctx : ∀ e ∈ ctx.entries, e.2.isKeyed = true := by
    rintro e (_ | ⟨_, ⟨⟩⟩)
    exact hv
  have hwhole : (2.0 : Float).isFinite = true := by decide +kernel
  have hinfinite : infinity.isFinite = false := by decide +kernel
  have hfinite : v.finite = w := by
    simp [v, w, Value.finite, Value.finiteItems, Value.finiteEntries, hwhole, hinfinite]
  obtain ⟨hvalue, -, hcontext⟩ := roundTrip hv hctx
  rw [hfinite] at hvalue
  refine ⟨hv, hvalue, hcontext.trans (congrArg Except.ok (Context.ext ?_))⟩
  show [("v", v.finite)] = [("v", w)]
  rw [hfinite]

end Stencil
