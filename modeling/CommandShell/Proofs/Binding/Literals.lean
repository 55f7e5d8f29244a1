import CommandShell.Binding.Coercion
import Mathlib.Data.List.Forall2
import Mathlib.Data.Nat.Digits.Defs
import Mathlib.Tactic.Ring

namespace CommandShell.Binding

-- A character is a digit of a radix up to 16.  Letters go on behind nine, in either case.
def IsDigit (radix : Nat) (c : Char) (d : Nat) : Prop :=
  d < radix ∧ (c = d.digitChar ∨ c = d.digitChar.toUpper)

section Digits

variable {radix d n m : Nat} {c : Char} {cs : List Char} {ds : List Nat}

theorem digitValue?_of_le (hr : radix ≤ 16) :
    digitValue? radix c = some d ↔ d < radix ∧ digitValue? 16 c = some d := by
  simp only [digitValue?, Option.ite_none_right_eq_some, Option.some.injEq]
  split
  · omega
  · split <;> omega

theorem toNat_lt_of_digitValue? (h : digitValue? 16 c = some d) : c.toNat < 128 := by
  have below {bound : Char} (hb : bound.val.toNat < 128) (hle : c.val ≤ bound.val) :
      c.toNat < 128 := Nat.lt_of_le_of_lt (UInt32.le_iff_toNat_le.mp hle) hb
  have hc : c.isDigit = true ∨ c.isAlpha = true := by
    by_contra hn
    rw [not_or] at hn
    simp [digitValue?, hn] at h
  rcases hc with hdigit | halpha
  · exact @below '9' (by decide) (of_decide_eq_true (Bool.and_eq_true_iff.mp hdigit).2)
  · rcases Bool.or_eq_true_iff.mp halpha with hupper | hlower
    · exact @below 'Z' (by decide) (of_decide_eq_true hupper).2
    · exact @below 'z' (by decide) (of_decide_eq_true (Bool.and_eq_true_iff.mp hlower).2)

theorem digitValue?_digitChar : ∀ d < 16,
    digitValue? 16 d.digitChar = some d ∧ digitValue? 16 d.digitChar.toUpper = some d := by
  decide

-- Only characters of one byte are digits, so there are few to look at.
theorem eq_digitChar_of_digitValue? (h : digitValue? 16 c = some d) :
    c = d.digitChar ∨ c = d.digitChar.toUpper := by
  have all : ∀ n < 128, ∀ d ∈ digitValue? 16 (Char.ofNat n),
      Char.ofNat n = d.digitChar ∨ Char.ofNat n = d.digitChar.toUpper := by decide +kernel
  have hc := all c.toNat (toNat_lt_of_digitValue? h) d
  rw [Char.ofNat_toNat] at hc
  exact hc h

theorem digitValue?_eq_some_iff (hr : radix ≤ 16) :
    digitValue? radix c = some d ↔ IsDigit radix c d := by
  rw [digitValue?_of_le hr, IsDigit, and_congr_right_iff]
  intro hd
  constructor
  · exact eq_digitChar_of_digitValue?
  · rintro (rfl | rfl)
    · exact (digitValue?_digitChar d (by omega)).1
    · exact (digitValue?_digitChar d (by omega)).2

-- The number that digits continue, the most significant of them first.
theorem magnitude_of_digits (hpos : 0 < radix) (hr : radix ≤ 16)
    (h : List.Forall₂ (IsDigit radix) cs ds) (hn : n < Nat.pow 2 127) :
    magnitude radix n cs =
      if n * radix ^ ds.length + Nat.ofDigits radix ds.reverse < Nat.pow 2 127 then
        .ok (n * radix ^ ds.length + Nat.ofDigits radix ds.reverse)
      else .error .outOfRange := by
  induction h generalizing n with
  | nil =>
    have hvalue : n * radix ^ ([] : List Nat).length + Nat.ofDigits radix [].reverse = n := by simp
    rw [magnitude, hvalue, if_pos hn]
  | @cons c d cs ds hd _ ih =>
    have hvalue : n * radix ^ (d :: ds).length + Nat.ofDigits radix (d :: ds).reverse =
        (n * radix + d) * radix ^ ds.length + Nat.ofDigits radix ds.reverse := by
      rw [Nat.ofDigits_reverse_cons, List.length_cons]
      ring
    rw [magnitude, (digitValue?_eq_some_iff hr).mpr hd, hvalue]
    dsimp only
    by_cases hnext : n * radix + d < Nat.pow 2 127
    · rw [if_pos hnext, ih hnext]
    · have hle : n * radix + d ≤ (n * radix + d) * radix ^ ds.length :=
        Nat.le_mul_of_pos_right _ (Nat.pow_pos hpos)
      rw [if_neg hnext, if_neg (by omega)]

theorem exists_digits_of_magnitude (hr : radix ≤ 16) (h : magnitude radix n cs = .ok m) :
    ∃ ds, List.Forall₂ (IsDigit radix) cs ds := by
  induction cs generalizing n with
  | nil => exact ⟨[], .nil⟩
  | cons c cs ih =>
    rw [magnitude] at h
    split at h
    · cases h
    · next d hd =>
      dsimp only at h
      split at h
      · obtain ⟨ds, hds⟩ := ih h
        exact ⟨d :: ds, .cons ((digitValue?_eq_some_iff hr).mp hd) hds⟩
      · cases h

end Digits

-- One or more digits of a radix, and the number that they denote.
def Numeral (radix : Nat) (cs : List Char) (n : Nat) : Prop :=
  ∃ ds, ds ≠ [] ∧ List.Forall₂ (IsDigit radix) cs ds ∧ Nat.ofDigits radix ds.reverse = n

-- A sign may be left out, and so may a mark of the radix if it is ten.
def signs : List (List Char × Int) := [([], 1), (['+'], 1), (['-'], -1)]

def radixMarks : List (List Char × Nat) :=
  [([], 10), (['0', 'x'], 16), (['0', 'X'], 16), (['0', 'o'], 8), (['0', 'O'], 8),
    (['0', 'b'], 2), (['0', 'B'], 2)]

-- A text is an integer literal and denotes an integer.
inductive IntegerLiteral : List Char → Int → Prop where
  | intro {sign mark digits : List Char} {unit : Int} {radix n : Nat}
      (hsign : (sign, unit) ∈ signs) (hmark : (mark, radix) ∈ radixMarks)
      (hdigits : Numeral radix digits n) : IntegerLiteral (sign ++ (mark ++ digits)) (unit * n)

section Literals

variable {radix n : Nat} {mark digits cs : List Char} {v : Int}

theorem radix_of_mark (h : (mark, radix) ∈ radixMarks) : 0 < radix ∧ radix ≤ 16 := by
  have all : ∀ p ∈ radixMarks, 0 < p.2 ∧ p.2 ≤ 16 := by decide
  exact all _ h

theorem Numeral.ne_nil (h : Numeral radix digits n) : digits ≠ [] := by
  obtain ⟨ds, hne, hds, -⟩ := h
  rintro rfl
  exact hne (List.forall₂_nil_left_iff.mp hds)

theorem Numeral.isSome_of_mem (h : Numeral radix digits n) (hr : radix ≤ 16) {c : Char}
    (hc : c ∈ digits) : (digitValue? radix c).isSome = true := by
  obtain ⟨ds, -, hds, -⟩ := h
  induction hds with
  | nil => cases hc
  | cons hd _ ih =>
    rcases List.mem_cons.mp hc with rfl | hc
    · rw [(digitValue?_eq_some_iff hr).mpr hd, Option.isSome_some]
    · exact ih hc

-- No numeral of radix ten looks like a mark.
theorem radixOf_append (hm : (mark, radix) ∈ radixMarks) (hn : Numeral radix digits n) :
    radixOf (mark ++ digits) = (radix, digits) := by
  simp only [radixMarks, List.mem_cons, Prod.mk.injEq, List.not_mem_nil, or_false] at hm
  rcases hm with ⟨rfl, rfl⟩ | ⟨rfl, rfl⟩ | ⟨rfl, rfl⟩ | ⟨rfl, rfl⟩ | ⟨rfl, rfl⟩ | ⟨rfl, rfl⟩ |
    ⟨rfl, rfl⟩
  · have second (c : Char) (rest : List Char) (h : digits = '0' :: c :: rest) :
        (digitValue? 10 c).isSome = true := hn.isSome_of_mem (by decide) (by simp [h])
    rw [List.nil_append, radixOf] <;> intro rest h <;> cases second _ rest h
  all_goals rfl

theorem exists_mark (cs : List Char) :
    ∃ mark, (mark, (radixOf cs).1) ∈ radixMarks ∧ cs = mark ++ (radixOf cs).2 := by
  unfold radixOf
  split
  · exact ⟨['0', 'x'], by simp [radixMarks], rfl⟩
  · exact ⟨['0', 'X'], by simp [radixMarks], rfl⟩
  · exact ⟨['0', 'o'], by simp [radixMarks], rfl⟩
  · exact ⟨['0', 'O'], by simp [radixMarks], rfl⟩
  · exact ⟨['0', 'b'], by simp [radixMarks], rfl⟩
  · exact ⟨['0', 'B'], by simp [radixMarks], rfl⟩
  · exact ⟨[], by simp [radixMarks], rfl⟩

-- A sign, and what stands behind it unless that looks like a sign too.
theorem sign_append {sign : List Char} {unit : Int} (hs : (sign, unit) ∈ signs)
    (hcs : ∀ c ∈ cs.head?, c ≠ '+' ∧ c ≠ '-') :
    Number.sign (sign ++ cs) = (decide (unit < 0), cs) := by
  simp only [signs, List.mem_cons, Prod.mk.injEq, List.not_mem_nil, or_false] at hs
  rcases hs with ⟨rfl, rfl⟩ | ⟨rfl, rfl⟩ | ⟨rfl, rfl⟩
  · rw [List.nil_append, Number.sign]
    · rfl
    · rintro rest rfl
      exact (hcs _ rfl).2 rfl
    · rintro rest rfl
      exact (hcs _ rfl).1 rfl
  · rfl
  · rfl

theorem exists_sign (cs : List Char) :
    ∃ sign unit, (sign, unit) ∈ signs ∧ decide (unit < 0) = (Number.sign cs).1 ∧
      cs = sign ++ (Number.sign cs).2 := by
  unfold Number.sign
  split
  · exact ⟨['-'], -1, by decide, rfl, rfl⟩
  · exact ⟨['+'], 1, by decide, rfl, rfl⟩
  · exact ⟨[], 1, by simp [signs], rfl, rfl⟩

theorem head_of_mark (hm : (mark, radix) ∈ radixMarks) (hn : Numeral radix digits n) :
    ∀ c ∈ (mark ++ digits).head?, c ≠ '+' ∧ c ≠ '-' := by
  intro c hc
  simp only [radixMarks, List.mem_cons, Prod.mk.injEq, List.not_mem_nil, or_false] at hm
  rcases hm with ⟨rfl, rfl⟩ | ⟨rfl, rfl⟩ | ⟨rfl, rfl⟩ | ⟨rfl, rfl⟩ | ⟨rfl, rfl⟩ | ⟨rfl, rfl⟩ |
    ⟨rfl, rfl⟩
  · have := hn.isSome_of_mem (by decide) (List.mem_of_mem_head? hc)
    constructor <;> rintro rfl <;> cases this
  all_goals
    cases hc
    decide

theorem integer_eq (cs : List Char) : integer cs =
    if (radixOf (Number.sign cs).2).2.isEmpty then .error .malformed
    else (magnitude (radixOf (Number.sign cs).2).1 0 (radixOf (Number.sign cs).2).2).map
      fun n => if (Number.sign cs).1 then -(n : Int) else n := by
  simp only [integer]
  split
  · rfl
  · cases magnitude (radixOf (Number.sign cs).2).1 0 (radixOf (Number.sign cs).2).2 <;> rfl

theorem unit_mul {sign : List Char} {unit : Int} (hs : (sign, unit) ∈ signs) (n : Nat) :
    (if decide (unit < 0) then -(n : Int) else n) = unit * n ∧ (unit * n).natAbs = n := by
  have all : ∀ p ∈ signs, p.2 = 1 ∨ p.2 = -1 := by decide
  obtain rfl | rfl : unit = 1 ∨ unit = -1 := all _ hs
  · simp
  · simp

-- The value of a literal is kept as far as it fits into 127 bits.
theorem integer_of_literal (h : IntegerLiteral cs v) :
    integer cs = if v.natAbs < Nat.pow 2 127 then .ok v else .error .outOfRange := by
  obtain @⟨sign, mark, digits, unit, radix, n, hs, hm, hn⟩ := h
  obtain ⟨hpos, hr⟩ := radix_of_mark hm
  have hempty : digits.isEmpty = false := by simpa using hn.ne_nil
  have hradix := radixOf_append hm hn
  have hsign := sign_append hs (head_of_mark hm hn)
  obtain ⟨ds, -, hds, rfl⟩ := hn
  have hmag := magnitude_of_digits hpos hr hds (n := 0) (by decide)
  rw [Nat.zero_mul, Nat.zero_add] at hmag
  generalize Nat.ofDigits radix ds.reverse = n at hmag ⊢
  obtain ⟨hunit, habs⟩ := unit_mul hs n
  simp only [integer_eq, hsign, hradix, hempty, hmag, habs]
  by_cases hn : n < Nat.pow 2 127
  · rw [if_pos hn, if_pos hn, ← hunit]
    rfl
  · rw [if_neg hn, if_neg hn]
    rfl

theorem literal_of_integer (h : integer cs = .ok v) : IntegerLiteral cs v := by
  obtain ⟨sign, unit, hs, hunit, hcs⟩ := exists_sign cs
  obtain ⟨mark, hm, hbody⟩ := exists_mark (Number.sign cs).2
  obtain ⟨hpos, hr⟩ := radix_of_mark hm
  rw [integer_eq, ← hunit] at h
  split at h
  · cases h
  · next hempty =>
    generalize (radixOf (Number.sign cs).2).1 = radix at h hm hpos hr
    generalize (radixOf (Number.sign cs).2).2 = digits at h hbody hempty
    cases hmag : magnitude radix 0 digits with
    | error e => rw [hmag] at h; cases h
    | ok n =>
      obtain ⟨ds, hds⟩ := exists_digits_of_magnitude hr hmag
      have hne : ds ≠ [] := by
        rintro rfl
        exact hempty (by rw [List.forall₂_nil_right_iff.mp hds]; rfl)
      have hvalue : Nat.ofDigits radix ds.reverse = n := by
        rw [magnitude_of_digits hpos hr hds (by decide), Nat.zero_mul, Nat.zero_add] at hmag
        split at hmag
        · exact Except.ok.inj hmag
        · cases hmag
      rw [hmag] at h
      have hv : unit * n = v := by rw [← (unit_mul hs n).1, ← Except.ok.inj h]
      rw [← hv, hcs, hbody]
      exact .intro hs hm ⟨ds, hne, hds, hvalue⟩

end Literals

-- The numbers of a type of some width, with a sign bit or without.
def Representable (signed : Bool) (width : Width) (v : Int) : Prop :=
  if signed then -2 ^ (width.bits - 1) ≤ v ∧ v < 2 ^ (width.bits - 1)
  else 0 ≤ v ∧ v < 2 ^ width.bits

theorem representable_iff (signed : Bool) (width : Width) (v : Int) :
    Representable signed width v ↔ minInteger signed width ≤ v ∧ v ≤ maxInteger signed width := by
  cases signed <;> cases width <;>
    simp [Representable, minInteger, maxInteger, Width.bits] <;> omega

-- No type has a number that does not fit into 127 bits.
theorem Representable.natAbs_lt {signed : Bool} {width : Width} {v : Int}
    (h : Representable signed width v) : v.natAbs < Nat.pow 2 127 := by
  cases signed <;> cases width <;> simp [Representable, Width.bits] at h ⊢ <;> omega

namespace Slot

-- Assign to a slot in its place: what is read replaces the value, or goes behind those of a list.
def store (t : ScalarType) (s : String) : ExceptT CoercionError (StateM Slot) Unit := do
  match ← get with
  | one _ => set (one (← t.coerce s))
  | optional _ => set (optional (some (← t.coerce s)))
  | many vs => set (many (vs ++ [← t.coerce s]))

theorem run_store (t : ScalarType) (s : String) (slot : Slot) : (store t s).run.run slot =
    match slot.assign t s with
    | .ok slot' => (.ok (), slot')
    | .error e => (.error e, slot) := by
  rw [assign]
  cases slot <;> cases h : t.coerce s <;> simp [store, h] <;> rfl

theorem assign_of_error {t : ScalarType} {s : String} {e : CoercionError}
    (h : t.coerce s = .error e) (slot : Slot) : slot.assign t s = .error e := by
  rw [assign, h]
  rfl

end Slot

namespace ScalarType

variable {signed : Bool} {width : Width} {s : String} {v : Int}

theorem coerce_of_integer (signed : Bool) (width : Width) (s : String) :
    (ScalarType.integer signed width).coerce s =
      match Binding.integer s.toList with
      | .ok v => if minInteger signed width ≤ v ∧ v ≤ maxInteger signed width then .ok (.integer v)
        else .error ⟨.outOfRange, .integer signed width⟩
      | .error cause => .error ⟨cause, .integer signed width⟩ := by
  simp only [coerce, read]
  cases Binding.integer s.toList with
  | error cause => rfl
  | ok v =>
    simp only [bind, Except.bind]
    split <;> rfl

theorem coerce_of_literal (h : IntegerLiteral s.toList v) :
    (ScalarType.integer signed width).coerce s =
      if minInteger signed width ≤ v ∧ v ≤ maxInteger signed width then .ok (.integer v)
      else .error ⟨.outOfRange, .integer signed width⟩ := by
  rw [coerce_of_integer, integer_of_literal h]
  by_cases hv : v.natAbs < Nat.pow 2 127
  · rw [if_pos hv]
  · have hn := mt (fun hin => ((representable_iff signed width v).mpr hin).natAbs_lt) hv
    rw [if_neg hv, if_neg hn]

theorem exists_literal_of_coerce {x : Scalar}
    (h : (ScalarType.integer signed width).coerce s = .ok x) :
    ∃ v, x = .integer v ∧ IntegerLiteral s.toList v ∧ Representable signed width v := by
  rw [coerce_of_integer] at h
  split at h
  · next v hv =>
    split at h
    · next hin =>
      cases h
      exact ⟨v, rfl, literal_of_integer hv, (representable_iff signed width v).mpr hin⟩
    · cases h
  · cases h

-- A text is read by an integer type exactly if it is a literal of one of its numbers.  All other
-- literals are out of range, and what cannot be read changes no slot.
theorem coerce_integer (signed : Bool) (width : Width) (s : String) :
    let t : ScalarType := .integer signed width
    (∀ x, t.coerce s = .ok x ↔
      ∃ v, x = .integer v ∧ IntegerLiteral s.toList v ∧ Representable signed width v) ∧
    (∀ v, IntegerLiteral s.toList v → ¬Representable signed width v →
      t.coerce s = .error ⟨.outOfRange, t⟩) ∧
    ((¬∃ v, IntegerLiteral s.toList v) → ∃ cause, t.coerce s = .error ⟨cause, t⟩) ∧
    ∀ e, t.coerce s = .error e → ∀ slot, (Slot.store t s).run.run slot = (.error e, slot) := by
  intro t
  refine ⟨fun x => ⟨exists_literal_of_coerce, ?_⟩, fun v hl hr => ?_, fun hl => ?_,
    fun e he slot => ?_⟩
  · rintro ⟨v, rfl, hl, hr⟩
    rw [coerce_of_literal hl, if_pos ((representable_iff signed width v).mp hr)]
  · rw [coerce_of_literal hl, if_neg (mt (representable_iff signed width v).mpr hr)]
  · rw [coerce_of_integer]
    split
    · next v hv => exact absurd ⟨v, literal_of_integer hv⟩ hl
    · next cause _ => exact ⟨cause, rfl⟩
  · rw [Slot.run_store, Slot.assign_of_error he]

-- The least number of eight bits with a sign is read, and without its sign it is out of range.
theorem coerce_integer_of_least :
    let t : ScalarType := .integer true .bits8
    IntegerLiteral "-0X80".toList (-128) ∧ Representable true .bits8 (-128) ∧
      t.coerce "-0X80" = .ok (.integer (-128)) ∧
      IntegerLiteral "0X80".toList 128 ∧ ¬Representable true .bits8 128 ∧
      (Slot.store t "0X80").run.run (.many [.integer 1]) =
        (.error ⟨.outOfRange, t⟩, .many [.integer 1]) := by
  intro t
  have least : IntegerLiteral "-0X80".toList (-128) := literal_of_integer (by decide +kernel)
  have next : IntegerLiteral "0X80".toList 128 := literal_of_integer (by decide +kernel)
  have fits : Representable true .bits8 (-128) := by simp [Representable, Width.bits]
  have apart : ¬Representable true .bits8 128 := by simp [Representable, Width.bits]
  obtain ⟨read, -, -, -⟩ := coerce_integer true .bits8 "-0X80"
  obtain ⟨-, refused, -, kept⟩ := coerce_integer true .bits8 "0X80"
  exact ⟨least, fits, (read _).mpr ⟨-128, rfl, least, fits⟩, next, apart,
    kept _ (refused 128 next apart) _⟩

end ScalarType

end CommandShell.Binding
