import Mathlib.Tactic.Ring
import Waveform.Payload.Steim

/-!
# Packed differences

How differences are put together into a data word, and that unpacking a word gives them back. A
word is read from its highest bits down: first two bits that tell the packing, where the nibble
alone does not, then bits that are not used, and then the differences in two's complement.
-/

namespace Waveform.Steim

/-! ## Numbers made of fields of one width -/

/-- The number whose digits are the given fields of so many bits, the highest field first. -/
def joined (width : Nat) : List Nat → Nat
  | [] => 0
  | field :: later => 2 ^ (width * later.length) * field + joined width later

/-- A number below a power of two does not reach the bits of a number shifted above it. -/
theorem shifted_add_lt {high low highBits lowBits : Nat} (highLt : high < 2 ^ highBits)
    (lowLt : low < 2 ^ lowBits) : 2 ^ lowBits * high + low < 2 ^ (lowBits + highBits) := by
  have room : 2 ^ lowBits * (high + 1) ≤ 2 ^ lowBits * 2 ^ highBits :=
    Nat.mul_le_mul_left _ highLt
  rw [Nat.pow_add]
  rw [Nat.mul_succ] at room
  omega

theorem joined_lt {width : Nat} {fields : List Nat}
    (bounded : ∀ field ∈ fields, field < 2 ^ width) :
    joined width fields < 2 ^ (width * fields.length) := by
  induction fields with
  | nil => exact Nat.one_pos
  | cons field later ih =>
      rw [joined, List.length_cons, Nat.mul_succ]
      apply shifted_add_lt
      · exact bounded field List.mem_cons_self
      · exact ih fun other member => bounded other (List.mem_cons_of_mem _ member)

/-- A field of a number is found at its place, whatever stands above all fields. -/
theorem field_of_joined {width : Nat} {fields : List Nat}
    (bounded : ∀ field ∈ fields, field < 2 ^ width) (high index : Nat)
    (isIndex : index < fields.length) :
    (2 ^ (width * fields.length) * high + joined width fields) /
      2 ^ (width * (fields.length - 1 - index)) % 2 ^ width = fields[index] := by
  induction fields generalizing high index with
  | nil => cases isIndex
  | cons field later ih =>
      have laterBounded : ∀ other ∈ later, other < 2 ^ width :=
        fun other member => bounded other (List.mem_cons_of_mem _ member)
      -- The first field joins what stands above the later ones.
      have regrouped :
          2 ^ (width * (field :: later).length) * high + joined width (field :: later) =
            2 ^ (width * later.length) * (2 ^ width * high + field) + joined width later := by
        rw [joined, List.length_cons, Nat.mul_succ, Nat.pow_add, Nat.mul_add, Nat.mul_assoc,
          Nat.add_assoc]
      rw [regrouped]
      cases index with
      | zero =>
          rw [List.length_cons, Nat.add_sub_cancel, Nat.sub_zero,
            Nat.mul_add_div (Nat.two_pow_pos _), Nat.div_eq_of_lt (joined_lt laterBounded),
            Nat.add_zero, Nat.mul_add_mod, List.getElem_cons_zero]
          exact Nat.mod_eq_of_lt (bounded field List.mem_cons_self)
      | succ index =>
          have isLater : index < later.length := Nat.lt_of_succ_lt_succ isIndex
          have samePlace :
              (field :: later).length - 1 - (index + 1) = later.length - 1 - index := by
            rw [List.length_cons]
            omega
          rw [samePlace, List.getElem_cons_succ]
          exact ih laterBounded (2 ^ width * high + field) index isLater

/-! ## Differences as fields -/

/-- Whether a difference can be stored in so many bits. -/
def Fits (width : Nat) (difference : Int32) : Prop :=
  -2 ^ (width - 1) ≤ difference.toInt ∧ difference.toInt < 2 ^ (width - 1)

instance (width : Nat) (difference : Int32) : Decidable (Fits width difference) :=
  inferInstanceAs (Decidable (_ ∧ _))

/-- The two's complement of a difference in so many bits. -/
def fieldOf (width : Nat) (difference : Int32) : Nat := (difference.toInt % 2 ^ width).toNat

theorem fieldOf_lt (width : Nat) (difference : Int32) : fieldOf width difference < 2 ^ width := by
  have positive : (0 : Int) < 2 ^ width := Int.pow_pos (by decide)
  have below := Int.emod_lt_of_pos difference.toInt positive
  have nonneg := Int.emod_nonneg difference.toInt (Int.ne_of_gt positive)
  rw [fieldOf, Int.toNat_lt nonneg]
  exact_mod_cast below

/-- Sign extension of a field gives the difference that was stored in it. -/
theorem ofBitVec_signExtend {width : Nat} (positive : 0 < width) (within : width ≤ 32)
    {bits : BitVec width} {difference : Int32} (fits : Fits width difference)
    (isField : bits.toNat = fieldOf width difference) :
    Int32.ofBitVec (bits.signExtend 32) = difference := by
  have isPower : ((2 ^ width : Nat) : Int) = 2 ^ width := Int.natCast_pow 2 width
  have doubled : ((2 ^ width : Nat) : Int) = 2 ^ (width - 1) * 2 := by
    rw [isPower, ← Int.pow_succ, Nat.succ_eq_add_one, Nat.sub_one_add_one (Nat.ne_of_gt positive)]
  have nonneg : 0 ≤ difference.toInt % 2 ^ width :=
    Int.emod_nonneg _ (Int.ne_of_gt (Int.pow_pos (by decide)))
  apply Int32.toInt.inj
  calc (Int32.ofBitVec (bits.signExtend 32)).toInt
      = (difference.toInt % (2 ^ width : Nat)).bmod (2 ^ width) := by
        rw [Int32.toInt_ofBitVec, BitVec.toInt_signExtend_of_le within,
          BitVec.toInt_eq_toNat_bmod, isField, fieldOf, Int.toNat_of_nonneg nonneg, isPower]
    _ = difference.toInt.bmod (2 ^ width) := Int.emod_bmod _ _
    _ = difference.toInt := by
        apply Int.bmod_eq_of_le_mul_two
        · rw [doubled, ← Int.neg_mul]
          exact Int.mul_le_mul_of_nonneg_right fits.1 (by decide)
        · rw [doubled]
          exact Int.mul_lt_mul_of_pos_right fits.2 (by decide)

/-! ## Ways to pack -/

/-- A way to pack differences into a data word, with the codes that tell it. -/
structure Form where
  nibble : Nat
  /-- The word's two highest bits, where the nibble alone does not tell the packing. -/
  selector : Option Nat
  packing : Packing
deriving DecidableEq

/-- The ways to pack of a level of compression. -/
def Level.forms : Level → List Form
  | .one => [⟨1, none, ⟨4, 8⟩⟩, ⟨2, none, ⟨2, 16⟩⟩, ⟨3, none, ⟨1, 32⟩⟩]
  | .two =>
      [⟨1, none, ⟨4, 8⟩⟩, ⟨2, some 1, ⟨1, 30⟩⟩, ⟨2, some 2, ⟨2, 15⟩⟩, ⟨2, some 3, ⟨3, 10⟩⟩,
        ⟨3, some 0, ⟨5, 6⟩⟩, ⟨3, some 1, ⟨6, 5⟩⟩, ⟨3, some 2, ⟨7, 4⟩⟩]

namespace Form

/-- How many bits of a word the differences take. -/
def differenceBits (form : Form) : Nat := form.packing.width * form.packing.count

/-- How many bits of a word the selector takes. -/
def selectorBits (form : Form) : Nat := if form.selector.isSome then 2 else 0

/-- How many bits of a word are not used. -/
def spareBits (form : Form) : Nat := 32 - form.selectorBits - form.differenceBits

variable {level : Level} {form : Form}

theorem totalBits (allowed : form ∈ level.forms) :
    form.differenceBits + (form.spareBits + form.selectorBits) = 32 := by
  revert form
  cases level <;> decide

theorem selector_lt (allowed : form ∈ level.forms) :
    form.selector.getD 0 < 2 ^ form.selectorBits := by
  revert form
  cases level <;> decide

theorem width_bounds (allowed : form ∈ level.forms) :
    0 < form.packing.width ∧ form.packing.width ≤ 32 := by
  revert form
  cases level <;> decide

/-- The codes of a way to pack tell its packing. -/
theorem ofCodes_eq (allowed : form ∈ level.forms) {topBits : Nat}
    (isSelector : ∀ selector, form.selector = some selector → topBits = selector) :
    Packing.ofCodes level form.nibble topBits = .ok form.packing := by
  cases level with
  | one =>
      simp only [Level.forms, List.mem_cons, List.not_mem_nil, or_false] at allowed
      rcases allowed with rfl | rfl | rfl <;> rfl
  | two =>
      simp only [Level.forms, List.mem_cons, List.not_mem_nil, or_false] at allowed
      rcases allowed with rfl | rfl | rfl | rfl | rfl | rfl | rfl
      · rfl
      all_goals
        cases isSelector _ rfl
        rfl

end Form

/-! ## Data words with differences -/

/-- Differences that share a data word. -/
structure Group (level : Level) where
  form : Form
  allowed : form ∈ level.forms
  differences : List Int32
  isFull : differences.length = form.packing.count
  fits : ∀ difference ∈ differences, Fits form.packing.width difference
  /-- What stands in the bits that are not used. -/
  spare : Nat
  spare_lt : spare < 2 ^ form.spareBits

namespace Group

variable {level : Level} (group : Group level)

/-- The bits above the differences. -/
def high : Nat := 2 ^ group.form.spareBits * group.form.selector.getD 0 + group.spare

/-- The differences in two's complement. -/
def fields : List Nat := group.differences.map (fieldOf group.form.packing.width)

/-- The data word of a group. -/
def word : BitVec 32 :=
  BitVec.ofNat 32 (2 ^ group.form.differenceBits * group.high +
    joined group.form.packing.width group.fields)

/-- The data word of a group together with its nibble. -/
def dataWord : DataWord := ⟨group.form.nibble, group.word⟩

theorem length_fields : group.fields.length = group.form.packing.count := by
  rw [fields, List.length_map, group.isFull]

theorem fields_lt : ∀ field ∈ group.fields, field < 2 ^ group.form.packing.width := by
  intro field member
  obtain ⟨difference, _, isField⟩ := List.mem_map.1 member
  rw [← isField]
  exact fieldOf_lt _ difference

theorem joined_fields_lt :
    joined group.form.packing.width group.fields < 2 ^ group.form.differenceBits := by
  have bound := joined_lt group.fields_lt
  rwa [group.length_fields] at bound

/-- The parts of a group fit into its data word. -/
theorem toNat_word : group.word.toNat =
    2 ^ group.form.differenceBits * group.high +
      joined group.form.packing.width group.fields := by
  have highLt : group.high < 2 ^ (group.form.spareBits + group.form.selectorBits) :=
    shifted_add_lt (Form.selector_lt group.allowed) group.spare_lt
  have wordLt := shifted_add_lt highLt group.joined_fields_lt
  rw [Form.totalBits group.allowed] at wordLt
  rw [word, BitVec.toNat_ofNat, Nat.mod_eq_of_lt wordLt]

/-- The two highest bits of a data word are the selector, if there is one. -/
theorem topBits_word {selector : Nat} (isSelector : group.form.selector = some selector) :
    (group.word >>> 30).toNat = selector := by
  have total := Form.totalBits group.allowed
  have isThirty : group.form.differenceBits + group.form.spareBits = 30 := by
    rw [Form.selectorBits, isSelector, Option.isSome_some, if_pos rfl] at total
    omega
  rw [BitVec.toNat_ushiftRight, Nat.shiftRight_eq_div_pow, ← isThirty, Nat.pow_add,
    ← Nat.div_div_eq_div_mul, group.toNat_word, Nat.mul_add_div (Nat.two_pow_pos _),
    Nat.div_eq_of_lt group.joined_fields_lt, Nat.add_zero, high,
    Nat.mul_add_div (Nat.two_pow_pos _), Nat.div_eq_of_lt group.spare_lt, Nat.add_zero, isSelector,
    Option.getD_some]

/-- Unpacking a data word gives back the differences that were packed. -/
theorem differences_word : group.form.packing.differences group.word = group.differences := by
  have bounds := Form.width_bounds group.allowed
  apply List.ext_getElem
  · rw [Packing.length_differences, group.isFull]
  intro index isIndex isDifference
  have isField : index < group.fields.length := by
    rw [group.length_fields, ← group.isFull]
    exact isDifference
  simp only [Packing.differences, List.getElem_map, List.getElem_reverse, List.length_range,
    List.getElem_range, Packing.differenceAt]
  apply ofBitVec_signExtend bounds.1 bounds.2 (group.fits _ (List.getElem_mem isDifference))
  have found := field_of_joined group.fields_lt group.high index isField
  rw [BitVec.extractLsb'_toNat, Nat.shiftRight_eq_div_pow, group.toNat_word]
  rw [group.length_fields] at found
  rw [Form.differenceBits, found]
  simp only [fields, List.getElem_map]

theorem differences_dataWord : group.dataWord.differences level = .ok group.differences := by
  have isPacking := Form.ofCodes_eq group.allowed fun _ => group.topBits_word
  rw [DataWord.differences, dataWord, isPacking, Except.map, group.differences_word]

end Group

end Waveform.Steim
