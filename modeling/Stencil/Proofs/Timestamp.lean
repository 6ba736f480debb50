import Stencil.Filter
import Stencil.Proofs.Days
import Stencil.Proofs.Word

/-! Written times are read back. A whole second in universal time, of a year of four digits, has two
written forms: the stamp, and date and clock with a blank between. Each is taken apart piece by
piece, and no layout that is tried before the right one fits. -/

namespace Stencil.Calendar

open Text (isBlank trimStart Tidy)

/-! Numbers of a fixed width -/

section

variable {width least n : Nat}

theorem isDigit_of_mem_digitsTo {c : Char} (h : c ∈ digitsTo width n) : c.isDigit = true := by
  rcases List.mem_append.1 h with h | h
  · rw [List.eq_of_mem_replicate h]
    rfl
  · exact Nat.isDigit_of_mem_toDigits (by decide) (by decide) h

theorem length_digitsTo (hpos : 0 < width) (h : n < Nat.pow 10 width) :
    (digitsTo width n).length = width := by
  have hle := (Nat.length_toDigits_le_iff (b := 10) (by decide) hpos).2 h
  rw [digitsTo, List.length_append, List.length_replicate]
  omega

theorem natOf_digitsTo (width n : Nat) : Decimal.natOf (digitsTo width n) = n := by
  have hzeros : ∀ k : Nat, Nat.ofDigitChars 10 (List.replicate k '0') 0 = 0 := by
    intro k
    induction k with
    | zero => rfl
    | succ k ih => rw [List.replicate_succ, Nat.ofDigitChars_cons]; exact ih
  rw [Decimal.natOf, digitsTo, Nat.ofDigitChars_append, hzeros, Nat.ofDigitChars_ten_toDigits]

theorem exists_cons_digitsTo (width n : Nat) :
    ∃ c cs, digitsTo width n = c :: cs ∧ c.isDigit = true := by
  have hne : digitsTo width n ≠ [] := List.append_ne_nil_of_right_ne_nil _ Nat.toDigits_ne_nil
  obtain ⟨c, cs, h⟩ := List.exists_cons_of_ne_nil hne
  exact ⟨c, cs, h, isDigit_of_mem_digitsTo (h ▸ List.mem_cons_self)⟩

/-- As many digits as are asked for at most are read, whatever follows them. -/
theorem readNat?_digitsTo (hpos : 0 < width) (h : n < Nat.pow 10 width) (hle : least ≤ width)
    (rest : List Char) : readNat? least width (digitsTo width n ++ rest) = some (n, rest) := by
  have hlen := length_digitsTo hpos h
  have hall : (digitsTo width n).takeWhile Char.isDigit = digitsTo width n :=
    List.takeWhile_eq_self_iff.2 fun c => isDigit_of_mem_digitsTo
  have hdigits : readDigits? least width (digitsTo width n ++ rest) =
      some (digitsTo width n, rest) := by
    rw [readDigits?, List.take_left' hlen]
    simp only [hall, hlen, hle, if_true, List.drop_left' hlen]
  rw [readNat?, hdigits]
  exact congrArg (fun n => some (n, rest)) (natOf_digitsTo width n)

theorem readNat?_pair (h : n < Nat.pow 10 2) (rest : List Char) :
    readNat? 1 2 (digitsTo 2 n ++ rest) = some (n, rest) :=
  readNat?_digitsTo (by decide) h (by decide) rest

theorem bind_readNat?_digitsTo {β : Type} (hpos : 0 < width) (h : n < Nat.pow 10 width)
    (hle : least ≤ width) (rest : List Char) (f : Nat × List Char → Option β) :
    (readNat? least width (digitsTo width n ++ rest) >>= f) = f (n, rest) := by
  rw [readNat?_digitsTo hpos h hle]
  rfl

theorem bind_readMark? {β : Type} (c : Char) (rest : List Char) (f : List Char → Option β) :
    (readMark? c (c :: rest) >>= f) = f rest := by
  rw [readMark?, readChar?, if_pos (beq_self_eq_true c)]
  rfl

theorem isBlank_of_isDigit {c : Char} (h : c.isDigit = true) : isBlank c = false :=
  Text.isBlank_of_isWordChar (by simp [Text.isWordChar, Char.isAlphanum, h])

theorem trimStart_digitsTo (width n : Nat) (rest : List Char) :
    trimStart (digitsTo width n ++ rest) = digitsTo width n ++ rest := by
  obtain ⟨c, cs, h, hc⟩ := exists_cons_digitsTo width n
  rw [h, trimStart, List.cons_append, List.dropWhile_cons_of_neg (by simp [isBlank_of_isDigit hc])]

theorem readYear?_digitsTo (h : n < Nat.pow 10 4) (rest : List Char) :
    readYear? (digitsTo 4 n ++ rest) = some ((n : Int), rest) := by
  have hread := readNat?_digitsTo (by decide) h (by decide : 1 ≤ 4) rest
  obtain ⟨c, cs, hcs, hc⟩ := exists_cons_digitsTo 4 n
  rw [hcs, List.cons_append] at hread ⊢
  have hminus : c ≠ '-' := by rintro rfl; cases hc
  have hplus : c ≠ '+' := by rintro rfl; cases hc
  rw [readYear?, hread]
  · rfl
  · exact fun _ h => hminus (List.head_eq_of_cons_eq h)
  · exact fun _ h => hplus (List.head_eq_of_cons_eq h)

theorem monthLength_le (year : Int) (month : Nat) : monthLength year month ≤ 31 := by
  rw [monthLength]
  split
  · split <;> decide
  · split <;> decide

theorem writePair_eq : ∀ n < 100, writePair .zero n = digitsTo 2 n := by decide

end

/-! Readers that do not fit -/

theorem toLower_of_isDigit {c : Char} (h : c.isDigit = true) : c.toLower = c := by
  have hupper : ¬ (c.val ≥ 'A'.val ∧ c.val ≤ 'Z'.val) := by
    rintro ⟨hge, -⟩
    rw [Char.isDigit, Bool.and_eq_true, decide_eq_true_eq, decide_eq_true_eq] at h
    exact absurd (UInt32.le_trans hge h.2) (by decide)
  exact dif_neg hupper

theorem readName?_of_isDigit {name : String}
    (hname : name.toList.head?.any (!·.toLower.isDigit) = true) {c : Char} (h : c.isDigit = true)
    (cs : List Char) : readName? name (c :: cs) = none := by
  rw [readName?]
  cases hds : name.toList with
  | nil =>
    rw [hds] at hname
    cases hname
  | cons d ds =>
    have hd : d.toLower.isDigit = false := by simpa [hds] using hname
    have hne : c ≠ d.toLower := by
      rintro rfl
      rw [h] at hd
      cases hd
    simp [toLower_of_isDigit h, hne]

theorem readWeekday?_of_isDigit {c : Char} (h : c.isDigit = true) (cs : List Char) :
    readWeekday? (c :: cs) = none := by
  have hnames : (shortNames weekdayNames).all (·.toList.head?.any (!·.toLower.isDigit)) = true := by
    decide +kernel
  rw [readWeekday?, readNameOf?, List.findSome?_eq_none_iff]
  rintro ⟨name, i⟩ hmem
  have hname := List.all_eq_true.1 hnames name (List.fst_mem_of_mem_zipIdx hmem)
  show (readName? name (c :: cs)).map (i, ·) = none
  rw [readName?_of_isDigit hname h]
  rfl

/-- In the headers of mail a blank follows the day, which has two digits at most. -/
theorem mailDate?_of_isDigit {a b c : Char} (ha : a.isDigit = true) (hb : b.isDigit = true)
    (hc : c.isDigit = true) (cs : List Char) : mailDate? (a :: b :: c :: cs) = none := by
  have htrim : trimStart (a :: b :: c :: cs) = a :: b :: c :: cs :=
    List.dropWhile_cons_of_neg (by simp [isBlank_of_isDigit ha])
  have hday : readNat? 1 2 (a :: b :: c :: cs) = some (Decimal.natOf [a, b], c :: cs) := by
    simp [readNat?, readDigits?, ha, hb]
  have hblank : readBlanks? (c :: cs) = none := by
    simp [readBlanks?, isBlank_of_isDigit hc]
  rw [mailDate?, htrim, readWeekday?_of_isDigit ha]
  show (readNat? 1 2 (trimStart (a :: b :: c :: cs)) >>= _) = _
  rw [htrim, hday]
  show (readBlanks? (c :: cs) >>= _) = _
  rw [hblank]
  rfl

/-! The two forms of an instant -/

namespace Instant

/-- A whole second in universal time, of a year that four digits can write. -/
structure IsPlain (t : Instant) : Prop where
  nanos_eq : t.nanos = 0
  offset_eq : t.offset = 0
  first_le : Date.toDays ⟨0, 1, 1⟩ ≤ t.seconds / 86400
  le_last : t.seconds / 86400 ≤ Date.toDays ⟨9999, 12, 31⟩

def dateChars (t : Instant) : List Char :=
  digitsTo 4 t.date.year.toNat ++ '-' :: (digitsTo 2 t.date.month ++ '-' :: digitsTo 2 t.date.day)

def clockChars (t : Instant) : List Char :=
  digitsTo 2 t.hour ++ ':' :: (digitsTo 2 t.minute ++ ':' :: digitsTo 2 t.second)

variable {t : Instant}

theorem IsPlain.localSeconds_eq (h : t.IsPlain) : t.localSeconds = t.seconds := by
  rw [localSeconds, h.offset_eq, Int.add_zero]

theorem IsPlain.date_eq (h : t.IsPlain) : t.date = .ofDays (t.seconds / 86400) := by
  rw [date, h.localSeconds_eq]

theorem IsPlain.year_bounds (h : t.IsPlain) : 0 ≤ t.date.year ∧ t.date.year ≤ 9999 := by
  rw [h.date_eq]
  exact Date.year_ofDays h.first_le h.le_last

theorem IsPlain.toNat_year (h : t.IsPlain) : (t.date.year.toNat : Int) = t.date.year :=
  Int.toNat_of_nonneg h.year_bounds.1

theorem isValid_date (t : Instant) : t.date.IsValid := Date.isValid_ofDays _

theorem hour_lt (t : Instant) : t.hour < 24 := by
  rw [hour, secondOfDay]
  omega

theorem minute_lt (t : Instant) : t.minute < 60 := Nat.mod_lt _ (by decide)

theorem IsPlain.second_eq (h : t.IsPlain) : t.second = t.secondOfDay % 60 := by
  rw [second, h.nanos_eq]
  rfl

theorem IsPlain.second_lt (h : t.IsPlain) : t.second < 60 := by
  rw [h.second_eq]
  exact Nat.mod_lt _ (by decide)

theorem IsPlain.seconds_eq (h : t.IsPlain) :
    86400 * t.date.toDays + (3600 * t.hour + 60 * t.minute + t.second : Nat) = t.seconds := by
  have hday : t.date.toDays = t.seconds / 86400 := by rw [h.date_eq, Date.toDays_ofDays]
  have hclock : (t.secondOfDay : Int) = t.seconds % 86400 := by
    rw [secondOfDay, h.localSeconds_eq]
    omega
  rw [hday, h.second_eq, hour, minute]
  omega

theorem inRange_of_isPlain (h : t.IsPlain) : inRange t.seconds = true := by
  have hfirst : Date.toDays ⟨Date.minYear, 1, 1⟩ ≤ Date.toDays ⟨0, 1, 1⟩ := by decide
  have hlast : Date.toDays ⟨9999, 12, 31⟩ ≤ Date.toDays ⟨Date.maxYear, 12, 31⟩ := by decide
  have hmin := h.first_le
  have hmax := h.le_last
  rw [inRange, Bool.and_eq_true, decide_eq_true_eq, decide_eq_true_eq]
  omega

def fields (t : Instant) : Fields where
  year := t.date.year
  month := t.date.month
  day := t.date.day
  hour := t.hour
  minute := t.minute
  second := t.second

theorem IsPlain.toInstant?_fields (h : t.IsPlain) : t.fields.toInstant? = some t := by
  have hyear := h.year_bounds
  have hdate : Date.ofParts? t.date.year t.date.month t.date.day = some t.date :=
    Date.ofParts?_of_isValid t.isValid_date (by rw [Date.minYear]; omega)
      (by rw [Date.maxYear]; omega)
  have hhour := t.hour_lt
  have hminute := t.minute_lt
  have hsecond := h.second_lt
  have hlocal : ofLocal? t.date (3600 * t.hour + 60 * t.minute + t.second) 0 0 = some t := by
    rw [ofLocal?, h.seconds_eq, Int.sub_zero, if_pos (inRange_of_isPlain h), ← h.nanos_eq,
      ← h.offset_eq]
  have hclock : t.hour ≤ 23 ∧ t.minute ≤ 59 ∧ t.second ≤ 60 := by omega
  have hleap : t.second ≠ 60 := by omega
  simp [Fields.toInstant?, fields, hdate, hclock, hleap, hlocal]

theorem IsPlain.digits (h : t.IsPlain) : t.date.year.toNat < Nat.pow 10 4 ∧
    t.date.month < Nat.pow 10 2 ∧ t.date.day < Nat.pow 10 2 ∧ t.hour < Nat.pow 10 2 ∧
    t.minute < Nat.pow 10 2 ∧ t.second < Nat.pow 10 2 := by
  have hyear := h.year_bounds
  have hdate := t.isValid_date
  have hmonth := hdate.month_le
  have hday : t.date.day ≤ 31 := Nat.le_trans hdate.day_le (monthLength_le _ _)
  have hhour := t.hour_lt
  have hminute := t.minute_lt
  have hsecond := h.second_lt
  show t.date.year.toNat < 10000 ∧ t.date.month < 100 ∧ t.date.day < 100 ∧ t.hour < 100 ∧
    t.minute < 100 ∧ t.second < 100
  omega

theorem IsPlain.writeYear_eq (h : t.IsPlain) :
    writeYear .zero t.date.year = digitsTo 4 t.date.year.toNat := by
  have hyear := h.year_bounds
  have hsign : ¬ t.date.year < 0 := by omega
  have habs : t.date.year.natAbs = t.date.year.toNat := by omega
  simp [writeYear, writeInt, hyear, hsign, habs]

theorem IsPlain.stampChars_eq (h : t.IsPlain) :
    t.stampChars = t.dateChars ++ 'T' :: (t.clockChars ++ "+00:00".toList) := by
  have hzone : writeOffset 1 0 = "+00:00".toList := by decide
  have hfraction : writeFraction t.fraction = [] := by
    rw [fraction, h.nanos_eq]
    rfl
  simp [stampChars, dateChars, clockChars, h.writeYear_eq, hfraction, h.offset_eq, hzone]

/-- Behind date and clock a stamp goes on with an offset, unless with a fraction or a letter. -/
theorem IsPlain.stamp?_eq (h : t.IsPlain) {sep : Char}
    (hsep : (sep == 'T' || sep == 't' || sep == ' ') = true) {zone : List Char}
    (hzone : ∀ c ∈ zone.head?, c ≠ '.' ∧ c ≠ 'Z' ∧ c ≠ 'z') :
    stamp? (t.dateChars ++ sep :: (t.clockChars ++ zone)) =
      (readOffset? (readMark? ':') ['-', '\u2212'] zone).bind fun (offset, rest) =>
        if rest.isEmpty then { t.fields with offset }.toInstant? else none := by
  obtain ⟨hyear, hmonth, hday, hhour, hminute, hsecond⟩ := h.digits
  have hle := Nat.le_refl
  simp only [dateChars, clockChars, List.append_assoc, List.cons_append]
  rw [stamp?, bind_readNat?_digitsTo (by decide) hyear (hle 4)]
  dsimp only
  rw [h.toNat_year, bind_readMark?, bind_readNat?_digitsTo (by decide) hmonth (hle 2)]
  dsimp only
  rw [bind_readMark?, bind_readNat?_digitsTo (by decide) hday (hle 2)]
  dsimp only
  rw [readChar?, if_pos hsep]
  show (readNat? 2 2 _ >>= _) = _
  rw [bind_readNat?_digitsTo (by decide) hhour (hle 2)]
  dsimp only
  rw [bind_readMark?, bind_readNat?_digitsTo (by decide) hminute (hle 2)]
  dsimp only
  rw [bind_readMark?, bind_readNat?_digitsTo (by decide) hsecond (hle 2)]
  dsimp only
  cases zone with
  | nil => rfl
  | cons c zone =>
    obtain ⟨hpoint, hupper, hlower⟩ := hzone c rfl
    split
    · next heq => exact absurd (List.head_eq_of_cons_eq heq) hpoint
    · simp only [Option.bind_eq_bind, Option.bind_some]
      split
      · next heq => exact absurd (List.head_eq_of_cons_eq heq) hupper
      · next heq => exact absurd (List.head_eq_of_cons_eq heq) hlower
      · rfl

theorem IsPlain.stamp?_stampChars (h : t.IsPlain) : stamp? t.stampChars = some t := by
  have hoffset : readOffset? (readMark? ':') ['-', '\u2212'] "+00:00".toList = some (0, []) := by
    decide +kernel
  have hzone : ∀ c ∈ "+00:00".toList.head?, c ≠ '.' ∧ c ≠ 'Z' ∧ c ≠ 'z' := by
    rintro c ⟨⟩
    decide
  rw [h.stampChars_eq, h.stamp?_eq (by decide) hzone, hoffset]
  exact h.toInstant?_fields

theorem IsPlain.stamp?_of_blank (h : t.IsPlain) :
    stamp? (t.dateChars ++ ' ' :: t.clockChars) = none := by
  have hzone : ∀ c ∈ ([] : List Char).head?, c ≠ '.' ∧ c ≠ 'Z' ∧ c ≠ 'z' := nofun
  have hblank : ((' ' == 'T') || (' ' == 't') || (' ' == ' ')) = true := by decide
  have hstamp := h.stamp?_eq hblank hzone
  rw [List.append_nil] at hstamp
  exact hstamp

theorem IsPlain.mailDate?_dateChars (h : t.IsPlain) (rest : List Char) :
    mailDate? (t.dateChars ++ rest) = none := by
  have hlen := length_digitsTo (by decide) h.digits.1
  have hdigit : ∀ c ∈ digitsTo 4 t.date.year.toNat, c.isDigit = true :=
    fun c => isDigit_of_mem_digitsTo
  rw [dateChars]
  match hds : digitsTo 4 t.date.year.toNat, hlen with
  | a :: b :: c :: ds, _ =>
    rw [hds] at hdigit
    exact mailDate?_of_isDigit (hdigit a (by simp)) (hdigit b (by simp)) (hdigit c (by simp)) _

end Instant

/-! Layouts -/

namespace Part

variable {t : Instant}

theorem readAll?_cons (p : Part) (parts : List Part) (f : Fields) (cs : List Char) :
    readAll? (p :: parts) f cs = (p.read? f cs).bind fun (f, cs) => readAll? parts f cs := by
  rw [readAll?, List.foldlM_cons]
  rfl

theorem readAll?_append (parts more : List Part) (f : Fields) (cs : List Char) :
    readAll? (parts ++ more) f cs =
      (readAll? parts f cs).bind fun (f, cs) => readAll? more f cs := by
  rw [readAll?, List.foldlM_append]
  rfl

theorem readAll?_nil (f : Fields) (cs : List Char) : readAll? [] f cs = some (f, cs) := rfl

theorem readAll?_dashDate (h : t.IsPlain) (f : Fields) (rest : List Char) :
    readAll? dashDate f (t.dateChars ++ rest) =
      some ({ f with year := t.date.year, month := t.date.month, day := t.date.day }, rest) := by
  obtain ⟨hyear, hmonth, hday, -⟩ := h.digits
  simp only [dashDate, Instant.dateChars, List.append_assoc, List.cons_append, readAll?_cons,
    readAll?_nil, read?, trimStart_digitsTo, readYear?_digitsTo hyear, readNat?_pair hmonth,
    readNat?_pair hday, readChar?, beq_self_eq_true, if_true, Option.map_some, Option.bind_some,
    h.toNat_year]

theorem readAll?_hourMinute (h : t.IsPlain) (f : Fields) (rest : List Char) :
    readAll? hourMinute f (t.clockChars ++ rest) =
      some ({ f with hour := t.hour, minute := t.minute },
        ':' :: (digitsTo 2 t.second ++ rest)) := by
  obtain ⟨-, -, -, hhour, hminute, -⟩ := h.digits
  simp only [hourMinute, Instant.clockChars, List.append_assoc, List.cons_append, readAll?_cons,
    readAll?_nil, read?, trimStart_digitsTo, readNat?_pair hhour, readNat?_pair hminute, readChar?,
    beq_self_eq_true, if_true, Option.map_some, Option.bind_some]

theorem readAll?_hourMinuteSecond (h : t.IsPlain) (f : Fields) (rest : List Char) :
    readAll? hourMinuteSecond f (t.clockChars ++ rest) =
      some ({ f with hour := t.hour, minute := t.minute, second := t.second }, rest) := by
  obtain ⟨-, -, -, -, -, hsecond⟩ := h.digits
  have hsplit : hourMinuteSecond = hourMinute ++ [mark ':', second] := rfl
  rw [hsplit, readAll?_append, readAll?_hourMinute h]
  simp only [readAll?_cons, readAll?_nil, read?, trimStart_digitsTo, readNat?_pair hsecond,
    readChar?, beq_self_eq_true, if_true, Option.map_some, Option.bind_some]

theorem trimStart_clockChars (t : Instant) (rest : List Char) :
    trimStart (' ' :: (t.clockChars ++ rest)) = t.clockChars ++ rest := by
  have hblank : isBlank ' ' = true := by decide
  rw [trimStart, List.dropWhile_cons_of_pos hblank, ← trimStart, Instant.clockChars,
    List.append_assoc, trimStart_digitsTo]

theorem readAll?_dashDate_gap (h : t.IsPlain) (f : Fields) :
    readAll? (dashDate ++ [gap]) f (t.dateChars ++ ' ' :: t.clockChars) =
      some ({ f with year := t.date.year, month := t.date.month, day := t.date.day },
        t.clockChars) := by
  have htrim := trimStart_clockChars t []
  rw [List.append_nil] at htrim
  rw [readAll?_append, readAll?_dashDate h]
  simp only [Option.bind_some, readAll?_cons, readAll?_nil, read?, htrim]

theorem readAll?_slashDate (h : t.IsPlain) (parts : List Part) (f : Fields) (rest : List Char) :
    readAll? (slashDate ++ parts) f (t.dateChars ++ rest) = none := by
  simp only [slashDate, Instant.dateChars, List.append_assoc, List.cons_append, readAll?_cons,
    read?, trimStart_digitsTo, readYear?_digitsTo h.digits.1, Option.map_some, Option.bind_some]
  rfl

/-- Of the layouts the one of date and clock fits; those before it want an offset. -/
theorem findSome?_instant? (h : t.IsPlain) :
    (withOffset ++ withoutOffset ++ dates).findSome?
      (instant? · (t.dateChars ++ ' ' :: t.clockChars)) = some t := by
  have hgap := readAll?_dashDate_gap h {}
  have hclock := fun f => readAll?_hourMinuteSecond h f []
  have hminutes := fun f => readAll?_hourMinute h f []
  simp only [List.append_nil] at hclock hminutes
  have hfirst : instant? (dashDate ++ [gap] ++ hourMinuteSecond ++ [fraction, gap, offset])
      (t.dateChars ++ ' ' :: t.clockChars) = none := by
    simp only [instant?, readAll?_append, hgap, hclock, Option.bind_some]
    rfl
  have hsecond : instant? (dashDate ++ [gap] ++ hourMinute ++ [gap, offset])
      (t.dateChars ++ ' ' :: t.clockChars) = none := by
    simp only [instant?, readAll?_append, hgap, hminutes, Option.bind_some]
    rfl
  have hthird : instant? (slashDate ++ [gap] ++ hourMinuteSecond ++ [gap, offset])
      (t.dateChars ++ ' ' :: t.clockChars) = none := by
    rw [instant?, List.append_assoc, List.append_assoc, readAll?_slashDate h]
  have hfourth : instant? (dashDate ++ [gap] ++ hourMinuteSecond ++ [fraction])
      (t.dateChars ++ ' ' :: t.clockChars) = some t := by
    simp only [instant?, readAll?_append, hgap, hclock, Option.bind_some]
    exact h.toInstant?_fields
  simp only [withOffset, withoutOffset, List.cons_append, List.nil_append, List.findSome?_cons,
    hfirst, hsecond, hthird, hfourth]

end Part

namespace Instant

variable {t : Instant}

theorem tidy_digitsTo (width n : Nat) : Tidy (digitsTo width n) := by
  have hblank : ∀ c ∈ digitsTo width n, isBlank c = false :=
    fun c hc => isBlank_of_isDigit (isDigit_of_mem_digitsTo hc)
  obtain ⟨c, cs, hcs, -⟩ := exists_cons_digitsTo width n
  rw [hcs] at hblank ⊢
  exact ⟨⟨c, rfl, hblank c List.mem_cons_self⟩,
    ⟨_, List.getLast?_eq_some_getLast (List.cons_ne_nil c cs), hblank _ (List.getLast_mem _)⟩⟩

theorem tidy_dateChars (t : Instant) : Tidy t.dateChars := by
  have htidy := (tidy_digitsTo 4 t.date.year.toNat).append (tidy_digitsTo 2 t.date.day)
    ('-' :: (digitsTo 2 t.date.month ++ ['-']))
  simpa [dateChars] using htidy

theorem tidy_clockChars (t : Instant) : Tidy t.clockChars := by
  have htidy := (tidy_digitsTo 2 t.hour).append (tidy_digitsTo 2 t.second)
    (':' :: (digitsTo 2 t.minute ++ [':']))
  simpa [clockChars] using htidy

theorem IsPlain.read?_stamp (h : t.IsPlain) : read? t.stamp = some t := by
  have hzone : Tidy "+00:00".toList := by
    exact ⟨⟨'+', rfl, by decide⟩, ⟨'0', by decide, by decide⟩⟩
  have htidy : Tidy t.stampChars := by
    have htidy := (tidy_dateChars t).append hzone ('T' :: t.clockChars)
    rw [h.stampChars_eq]
    simpa using htidy
  rw [read?, stamp, String.toList_ofList]
  simp only [htidy.trim_eq, h.stamp?_stampChars, Option.some_or]

theorem IsPlain.read?_dateChars (h : t.IsPlain) :
    read? (.ofList (t.dateChars ++ ' ' :: t.clockChars)) = some t := by
  have htidy : Tidy (t.dateChars ++ ' ' :: t.clockChars) := by
    have htidy := (tidy_dateChars t).append (tidy_clockChars t) [' ']
    rwa [List.append_assoc] at htidy
  rw [read?, String.toList_ofList]
  simp only [htidy.trim_eq, h.stamp?_of_blank, h.mailDate?_dateChars, Option.none_or,
    Part.findSome?_instant? h]

theorem IsPlain.format_eq (h : t.IsPlain) :
    t.format "%Y-%m-%d %H:%M:%S" = .ofList (t.dateChars ++ ' ' :: t.clockChars) := by
  have hitems : Item.ofPattern "%Y-%m-%d %H:%M:%S".toList =
      [.number .year .zero, .literal '-', .number .month .zero, .literal '-', .number .day .zero,
        .literal ' ', .number .hour .zero, .literal ':', .number .minute .zero, .literal ':',
        .number .second .zero] := by
    decide +kernel
  obtain ⟨-, hmonth, hday, hhour, hminute, hsecond⟩ := h.digits
  rw [format, hitems]
  simp [writeItem?, writeNumber, h.writeYear_eq, writePair_eq _ hmonth, writePair_eq _ hday,
    writePair_eq _ hhour, writePair_eq _ hminute, writePair_eq _ hsecond, dateChars, clockChars]

end Instant

end Stencil.Calendar

namespace Stencil.Filter

open Calendar (Instant)

/-- the seconds from 0000-01-01T00:00:00Z to 9999-12-31T23:59:59Z -/
def HasFourDigitYear (t : Int64) : Prop := -62167219200 ≤ t.toInt ∧ t.toInt ≤ 253402300799

instance (t : Int64) : Decidable (HasFourDigitYear t) := inferInstanceAs (Decidable (_ ∧ _))

def clockPattern : Option Value := some (.text "%Y-%m-%d %H:%M:%S")

variable {t : Int64}

theorem isPlain_of_hasFourDigitYear (h : HasFourDigitYear t) : Instant.IsPlain ⟨t.toInt, 0, 0⟩ := by
  have hfirst : Calendar.Date.toDays ⟨0, 1, 1⟩ = -719528 := by decide
  have hlast : Calendar.Date.toDays ⟨9999, 12, 31⟩ = 2932896 := by decide
  obtain ⟨hmin, hmax⟩ := h
  refine ⟨rfl, rfl, ?_, ?_⟩ <;> dsimp only <;> omega

theorem instant?_int (h : HasFourDigitYear t) : instant? (.int t) = some ⟨t.toInt, 0, 0⟩ := by
  have hrange := Instant.inRange_of_isPlain (isPlain_of_hasFourDigitYear h)
  rw [instant?, Instant.ofSeconds?, hrange]
  rfl

theorem date_none {v : Value} {i : Instant} (h : instant? v = some i) (now : Instant) :
    date now v none = .text i.stamp := by
  rw [date, h]
  rfl

theorem date_clockPattern {v : Value} {i : Instant} (h : instant? v = some i) (now : Instant) :
    date now v clockPattern = .text (i.format "%Y-%m-%d %H:%M:%S") := by
  have hpattern : "%Y-%m-%d %H:%M:%S".isEmpty = false := by decide
  rw [date, h, clockPattern, argumentText, Option.elim_some, Value.display, hpattern]
  rfl

/-- Seconds are read back from the stamp and from date and clock, whatever the time is now, and the
stamp is the same again. Other seconds have another stamp. -/
theorem date_readBack (h : HasFourDigitYear t) (now now' : Instant) :
    let r := date now (.int t) none
    let u := date now (.int t) clockPattern
    instant? r = some ⟨t.toInt, 0, 0⟩ ∧ instant? u = some ⟨t.toInt, 0, 0⟩ ∧
      date now' r none = r ∧ date now' u none = r ∧
      ∀ t', HasFourDigitYear t' → t ≠ t' → date now' (.int t') none ≠ r := by
  have hplain := isPlain_of_hasFourDigitYear h
  have hstamp : instant? (date now (.int t) none) = some ⟨t.toInt, 0, 0⟩ := by
    rw [date_none (instant?_int h)]
    exact hplain.read?_stamp
  have hclock : instant? (date now (.int t) clockPattern) = some ⟨t.toInt, 0, 0⟩ := by
    rw [date_clockPattern (instant?_int h), hplain.format_eq]
    exact hplain.read?_dateChars
  refine ⟨hstamp, hclock, ?_, ?_, ?_⟩
  · rw [date_none hstamp, date_none (instant?_int h)]
  · rw [date_none hclock, date_none (instant?_int h)]
  · intro t' h' hne heq
    have hstamp' : instant? (date now' (.int t') none) = some ⟨t'.toInt, 0, 0⟩ := by
      rw [date_none (instant?_int h')]
      exact (isPlain_of_hasFourDigitYear h').read?_stamp
    rw [heq, hstamp, Option.some_inj, Instant.mk.injEq] at hstamp'
    exact hne (Int64.toInt_inj.1 hstamp'.1)

/-- The leap day of the year 0 and the last second of the year 9999. -/
theorem date_readBack_borders :
    HasFourDigitYear (-62162121600) ∧ HasFourDigitYear 253402300799 ∧
      date ⟨0, 0, 0⟩ (.text "0000-02-29 00:00:00") none = .text "0000-02-29T00:00:00+00:00" ∧
      date ⟨0, 0, 0⟩ (.text "9999-12-31T23:59:59+00:00") none =
        .text "9999-12-31T23:59:59+00:00" ∧
      date ⟨0, 0, 0⟩ (.int 253402300799) none ≠ .text "0000-02-29T00:00:00+00:00" := by
  have hleap : HasFourDigitYear (-62162121600) := by decide
  have hlast : HasFourDigitYear 253402300799 := by decide
  have hleapStamp : date ⟨0, 0, 0⟩ (.int (-62162121600)) none =
      .text "0000-02-29T00:00:00+00:00" := by
    rw [date_none (instant?_int hleap)]
    exact congrArg Value.text (by decide +kernel)
  have hleapClock : date ⟨0, 0, 0⟩ (.int (-62162121600)) clockPattern =
      .text "0000-02-29 00:00:00" := by
    rw [date_clockPattern (instant?_int hleap)]
    exact congrArg Value.text (by decide +kernel)
  have hlastStamp : date ⟨0, 0, 0⟩ (.int 253402300799) none =
      .text "9999-12-31T23:59:59+00:00" := by
    rw [date_none (instant?_int hlast)]
    exact congrArg Value.text (by decide +kernel)
  obtain ⟨-, -, -, hclock, hother⟩ := date_readBack hleap ⟨0, 0, 0⟩ ⟨0, 0, 0⟩
  obtain ⟨-, -, hread, -, -⟩ := date_readBack hlast ⟨0, 0, 0⟩ ⟨0, 0, 0⟩
  rw [hleapStamp, hleapClock] at hclock
  rw [hlastStamp] at hread
  exact ⟨hleap, hlast, hclock, hread, hleapStamp ▸ hother _ hlast (by decide)⟩

end Stencil.Filter
