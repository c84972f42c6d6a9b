import Linkage.ClassFile.Pool
import Linkage.Proofs.Decoding
import Linkage.Proofs.Runs

/-!
# Constant pools and the numbers of their slots

A pool that has been read is made of written constants, each in the slot whose number it has when the
constants are counted from 1 and those of eight bytes counted twice. A `WrittenConstant` is a constant
with the bytes that are written for it, whatever they hold; the statement is `pool_numbering`.
-/

namespace Linkage

open Decoder

/-! ## Written constants -/

namespace Constant

def tag : Constant → UInt8
  | utf8 _ => 1
  | integer => 3
  | float => 4
  | long => 5
  | double => 6
  | classInfo _ => 7
  | string _ => 8
  | fieldRef .. => 9
  | methodRef .. => 10
  | interfaceMethodRef .. => 11
  | nameAndType .. => 12
  | methodHandle .. => 15
  | methodType _ => 16
  | dynamic .. => 17
  | invokeDynamic .. => 18
  | moduleInfo _ => 19
  | packageInfo _ => 20

/-- Whether some bytes can be written for a constant behind its tag. The bytes of a text need not be
UTF-8, and of a number only the size counts. -/
def Body : Constant → List UInt8 → Prop
  | utf8 text, body => ∃ part : List UInt8, part.length < 2 ^ 16 ∧ Utf8.decodeLossy part = text ∧
      body = twoBytes (UInt16.ofNat part.length) ++ part
  | integer, body | float, body => body.length = 4
  | long, body | double, body => body.length = 8
  | classInfo index, body | string index, body | methodType index, body
  | moduleInfo index, body | packageInfo index, body => body = twoBytes index
  | fieldRef first second, body | methodRef first second, body
  | interfaceMethodRef first second, body | nameAndType first second, body
  | dynamic first second, body | invokeDynamic first second, body =>
      body = twoBytes first ++ twoBytes second
  | methodHandle referenceKind reference, body => body = referenceKind :: twoBytes reference

def Written (constant : Constant) (bytes : List UInt8) : Prop :=
  ∃ body, bytes = constant.tag :: body ∧ constant.Body body

def width (constant : Constant) : Nat := if constant.isWide then 2 else 1

def slots (constant : Constant) : List (Option Constant) :=
  if constant.isWide then [some constant, none] else [some constant]

end Constant

structure WrittenConstant where
  constant : Constant
  bytes : List UInt8
  written : constant.Written bytes

section Written

variable {index : UInt16} {constant : Constant} {tag : UInt8}

theorem index_takes (make : UInt16 → Constant)
    (body : ∀ index, (make index).tag = tag ∧ (make index).Body (twoBytes index)) :
    (u2 >>= fun index => pure (make index)).Takes fun constant more =>
      constant.Written ([tag] ++ more) := by
  refine u2_takes.map fun index taken holds => ⟨taken, ?_, ?_⟩
  · rw [(body index).1, List.singleton_append]
  · exact holds ▸ (body index).2

theorem indices_takes (make : UInt16 → UInt16 → Constant)
    (body : ∀ first second, (make first second).tag = tag ∧
      (make first second).Body (twoBytes first ++ twoBytes second)) :
    (u2 >>= fun first => u2 >>= fun second => pure (make first second)).Takes fun constant more =>
      constant.Written ([tag] ++ more) := by
  refine u2_takes.bind fun first taken holds => u2_takes.map fun second taken' holds' => ?_
  subst holds holds'
  exact ⟨_, by rw [(body first second).1]; rfl, (body first second).2⟩

theorem passed_takes (count : Nat) (opened : constant.tag = tag)
    (body : ∀ part : List UInt8, part.length = count → constant.Body part) :
    (skip count >>= fun _ => pure constant).Takes fun constant more =>
      constant.Written ([tag] ++ more) :=
  (skip_takes count).map fun _ taken holds => ⟨taken, by rw [opened]; rfl, body taken holds⟩

theorem text_takes :
    (u2 >>= fun size => bytes size.toNat >>= fun part =>
      pure (Constant.utf8 (Utf8.decodeLossy part))).Takes fun constant more =>
        constant.Written ([1] ++ more) := by
  refine u2_takes.bind fun size taken holds => (bytes_takes size.toNat).map ?_
  rintro part taken' ⟨rfl, exact⟩
  subst holds
  refine ⟨twoBytes size ++ taken', rfl, taken', exact ▸ size.toNat_lt, rfl, ?_⟩
  rw [exact, UInt16.ofNat_toNat]

theorem constant_takes (index : UInt16) : (Constant.decoder index).Takes Constant.Written := by
  refine u1_takes.bind fun tag taken opened => ?_
  subst opened
  split
  case h_1 => exact text_takes
  case h_2 | h_3 | h_4 | h_5 => exact passed_takes _ rfl fun _ exact => exact
  case h_6 | h_7 | h_13 | h_16 | h_17 => exact index_takes _ fun _ => ⟨rfl, rfl⟩
  case h_8 | h_9 | h_10 | h_11 | h_14 | h_15 => exact indices_takes _ fun _ _ => ⟨rfl, rfl⟩
  case h_12 =>
    refine u1_takes.bind fun kind taken holds => u2_takes.map fun reference taken' holds' => ?_
    subst holds holds'
    exact ⟨_, rfl, rfl⟩
  case h_18 => exact takes_throw _

theorem indices_reads {make : UInt16 → UInt16 → Constant} (first second : UInt16) :
    (u2 >>= fun first => u2 >>= fun second => pure (make first second)).Reads
      (twoBytes first ++ twoBytes second) (make first second) :=
  (u2_reads first).bind (u2_reads second).map

theorem WrittenConstant.reads (item : WrittenConstant) (index : UInt16) :
    (Constant.decoder index).Reads item.bytes item.constant := by
  obtain ⟨constant, _, body, rfl, holds⟩ := item
  unfold Constant.decoder
  cases constant with
  | utf8 text =>
    obtain ⟨part, short, rfl, rfl⟩ := holds
    refine ((u2_reads _).bind ?_).after_tag
    exact (bytes_reads part (UInt16.toNat_ofNat_of_lt' short).symm).map
  | integer | float | long | double => exact (skip_reads body holds).map.after_tag
  | classInfo | string | methodType | moduleInfo | packageInfo =>
    subst holds
    exact (u2_reads _).map.after_tag
  | fieldRef | methodRef | interfaceMethodRef | nameAndType | dynamic | invokeDynamic =>
    subst holds
    exact (indices_reads _ _).after_tag
  | methodHandle kind reference =>
    subst holds
    exact (u2_reads reference).map.after_tag.after_tag

end Written

namespace WrittenConstant

def slots (items : List WrittenConstant) : List (Option Constant) :=
  items.flatMap fun item => item.constant.slots

def following (items : List WrittenConstant) : Nat :=
  1 + (items.map fun item => item.constant.width).sum

/-- Constants with their numbers, of which the first is given: a constant that takes two slots counts
twice. -/
def numbered : Nat → List WrittenConstant → List (Nat × Constant)
  | _, [] => []
  | number, item :: items =>
      (number, item.constant) :: numbered (number + item.constant.width) items

end WrittenConstant

section Width

variable {constant : Constant}

theorem Constant.cases_width (constant : Constant) :
    (constant.isWide = false ∧ constant.width = 1 ∧ constant.slots = [some constant]) ∨
      (constant.isWide = true ∧ constant.width = 2 ∧ constant.slots = [some constant, none]) := by
  unfold width slots
  cases constant.isWide
  · exact .inl ⟨rfl, rfl, rfl⟩
  · exact .inr ⟨rfl, rfl, rfl⟩

theorem Constant.width_pos (constant : Constant) : 0 < constant.width := by
  rcases constant.cases_width with ⟨-, width, -⟩ | ⟨-, width, -⟩ <;> rw [width] <;> decide

theorem Constant.length_slots (constant : Constant) : constant.slots.length = constant.width := by
  rcases constant.cases_width with ⟨-, width, slots⟩ | ⟨-, width, slots⟩ <;>
    rw [width, slots] <;> rfl

theorem WrittenConstant.slots_cons (item : WrittenConstant) (items : List WrittenConstant) :
    slots (item :: items) = item.constant.slots ++ slots items :=
  List.flatMap_cons

theorem Constant.isWide_iff : constant.isWide = true ↔ constant = .long ∨ constant = .double := by
  cases constant <;> simp [isWide]

end Width

namespace Pool

variable {slots final : Array (Option Constant)} {left : Nat} {constant : Constant}

def Holds (pool : Pool) (index : Nat) (constant : Constant) : Prop :=
  pool.slots[index]? = some (some constant)

theorem push_append (slots : Array (Option Constant)) (slot : Option Constant)
    (rest : List (Option Constant)) :
    slots.push slot ++ rest.toArray = slots ++ (slot :: rest).toArray := by
  apply Array.ext'
  simp

/-- One step: a constant takes as many of the slots left as it is wide, if there are as many. -/
theorem slotsDecoder_succ (slots : Array (Option Constant)) (left : Nat) :
    slotsDecoder slots (left + 1) = Constant.decoder (UInt16.ofNat slots.size) >>= fun constant =>
      if constant.width ≤ left + 1 then
        slotsDecoder (slots ++ constant.slots.toArray) (left + 1 - constant.width)
      else throw (.corruptEntry "constant pool" s!"8-byte constant in last slot {slots.size}") := by
  have one (constant : Constant) : slots ++ [some constant].toArray = slots.push (some constant) := by
    simp
  have two (constant : Constant) :
      slots ++ [some constant, none].toArray = (slots.push (some constant)).push none := by
    rw [← push_append, ← push_append, Array.append_empty]
  cases left with
  | zero =>
    rw [slotsDecoder]
    refine congrArg _ (funext fun constant => ?_)
    rcases constant.cases_width with ⟨narrow, width, filled⟩ | ⟨wide, width, filled⟩
    · rw [narrow, width, filled, one]
      rfl
    · rw [wide, width]
      rfl
  | succ left =>
    rw [slotsDecoder]
    refine congrArg _ (funext fun constant => ?_)
    rcases constant.cases_width with ⟨narrow, width, filled⟩ | ⟨wide, width, filled⟩
    · rw [narrow, width, filled, one]
      exact (if_pos (Nat.le_add_left 1 (left + 1))).symm
    · rw [wide, width, filled, two]
      exact (if_pos (Nat.le_add_left 2 left)).symm

theorem slotsDecoder_takes (slots : Array (Option Constant)) (left : Nat) :
    (slotsDecoder slots left).Takes fun final taken => ∃ items : List WrittenConstant,
      taken = items.flatMap WrittenConstant.bytes ∧
      final.toList = slots.toList ++ WrittenConstant.slots items ∧
      WrittenConstant.following items = left + 1 := by
  induction left using Nat.strong_induction_on generalizing slots with
  | _ left ih =>
    cases left with
    | zero => exact takes_pure ⟨[], rfl, (List.append_nil _).symm, rfl⟩
    | succ left =>
      rw [slotsDecoder_succ]
      refine (constant_takes _).bind fun constant taken written => ?_
      split
      case isFalse => exact takes_throw _
      case isTrue fits =>
        have positive := constant.width_pos
        refine (ih (left + 1 - constant.width) (by omega) _).imp ?_
        rintro final more ⟨items, rfl, filled, count⟩
        refine ⟨⟨constant, taken, written⟩ :: items, rfl, ?_, ?_⟩
        · rw [filled, Array.toList_append, List.append_assoc]
          rfl
        · simp only [WrittenConstant.following, List.map_cons, List.sum_cons] at count ⊢
          omega

theorem decoder_takes : decoder.Takes fun pool taken => ∃ (count : UInt16)
    (items : List WrittenConstant),
      taken = twoBytes count ++ items.flatMap WrittenConstant.bytes ∧
      pool.slots.toList = none :: WrittenConstant.slots items ∧
      WrittenConstant.following items = max count.toNat 1 := by
  refine u2_takes.bind fun count taken opened => (slotsDecoder_takes _ _).map ?_
  rintro slots more ⟨items, rfl, filled, counted⟩
  exact ⟨count, items, opened ▸ rfl, filled, by omega⟩

/-! ## All slots -/

theorem slotsDecoder_pass (item : WrittenConstant) (slots : Array (Option Constant))
    (left pos : Nat) (rest : List UInt8) :
    slotsDecoder slots (left + item.constant.width) ⟨pos, item.bytes ++ rest⟩ =
      slotsDecoder (slots ++ item.constant.slots.toArray) left ⟨pos + item.bytes.length, rest⟩ := by
  have opened := item.reads (UInt16.ofNat slots.size) pos rest
  obtain ⟨below, width⟩ := Nat.exists_eq_add_one.mpr item.constant.width_pos
  have fits : item.constant.width ≤ left + below + 1 := by omega
  have remaining : left + below + 1 - item.constant.width = left := by omega
  rw [width, ← Nat.add_assoc, slotsDecoder_succ, bind_of_ok opened, if_pos fits, remaining]

/-- Constants that leave slots behind them are passed over. The induction is on the constants still
to come; `slots` holds those before them. -/
theorem slotsDecoder_pass_all (items : List WrittenConstant) (slots : Array (Option Constant))
    (left pos : Nat) (rest : List UInt8) :
    slotsDecoder slots (left + (items.map fun item => item.constant.width).sum)
        ⟨pos, items.flatMap WrittenConstant.bytes ++ rest⟩ =
      slotsDecoder (slots ++ (WrittenConstant.slots items).toArray) left
        ⟨pos + (items.flatMap WrittenConstant.bytes).length, rest⟩ := by
  induction items generalizing slots pos with
  | nil =>
    have unmoved : slots ++ (WrittenConstant.slots []).toArray = slots := Array.append_empty
    rw [unmoved]
    rfl
  | cons item items ih =>
    rw [List.map_cons, List.sum_cons, Nat.add_comm item.constant.width, ← Nat.add_assoc,
      List.flatMap_cons, List.append_assoc, slotsDecoder_pass, ih, WrittenConstant.slots_cons,
      Array.append_assoc, List.append_toArray item.constant.slots, List.length_append,
      Nat.add_assoc]

theorem decoder_reads (items : List WrittenConstant)
    (few : WrittenConstant.following items < 2 ^ 16) :
    decoder.Reads (twoBytes (UInt16.ofNat (WrittenConstant.following items)) ++
      items.flatMap WrittenConstant.bytes) ⟨(none :: WrittenConstant.slots items).toArray⟩ := by
  refine (u2_reads _).bind (Reads.map fun pos trailing => ?_)
  have passed := slotsDecoder_pass_all items #[none] 0 pos trailing
  have filled : #[none] ++ (WrittenConstant.slots items).toArray =
      (none :: WrittenConstant.slots items).toArray := by simp
  rw [Nat.zero_add, filled] at passed
  rw [UInt16.toNat_ofNat_of_lt' few, WrittenConstant.following, Nat.add_sub_cancel_left]
  exact passed

/-! ## Last slots -/

theorem isWide_of_tag (tagged : constant.tag = 5 ∨ constant.tag = 6) :
    constant.isWide = true := by
  cases constant <;> simp_all [Constant.tag, Constant.isWide]

theorem slotsDecoder_last_fails {cursor next : Cursor} {tag : UInt8} {rest : List UInt8}
    (opens : cursor.rest = tag :: rest) (tagged : tag = 5 ∨ tag = 6) :
    slotsDecoder slots 1 cursor ≠ .ok final next := by
  intro success
  rw [slotsDecoder_succ] at success
  obtain ⟨constant, between, opened, done⟩ := ok_of_bind success
  obtain ⟨_, ⟨body, rfl, -⟩, front, -⟩ := constant_takes _ _ _ _ opened
  rw [opens] at front
  obtain ⟨rfl, -⟩ := List.cons.inj front
  rcases constant.cases_width with ⟨narrow, -, -⟩ | ⟨-, width, -⟩
  · rw [isWide_of_tag tagged] at narrow
    cases narrow
  · rw [width, if_neg (by decide)] at done
    cases done

theorem decoder_last_fails {cursor next : Cursor} {count : UInt16} {items : List WrittenConstant}
    {tag : UInt8} {rest : List UInt8} {pool : Pool}
    (opens : cursor.rest = twoBytes count ++ items.flatMap WrittenConstant.bytes ++ tag :: rest)
    (last : WrittenConstant.following items = count.toNat - 1) (tagged : tag = 5 ∨ tag = 6) :
    decoder cursor ≠ .ok pool next := by
  intro success
  obtain ⟨pos, _⟩ := cursor
  subst opens
  obtain ⟨count', between, opened, done⟩ := ok_of_bind success
  rw [List.append_assoc, u2_reads count pos] at opened
  cases opened
  obtain ⟨slots, after, read, -⟩ := ok_of_bind done
  rw [← last, WrittenConstant.following, slotsDecoder_pass_all items _ 1] at read
  exact slotsDecoder_last_fails rfl tagged read

theorem filled_by (constant : Constant) (front rest : List (Option Constant)) :
    (front ++ (constant.slots ++ rest))[front.length]? = some (some constant) ∧
      ∀ i, front.length < i → i < front.length + constant.width →
        (front ++ (constant.slots ++ rest))[i]? = some none := by
  rcases constant.cases_width with ⟨-, width, slots⟩ | ⟨-, width, slots⟩
  · rw [width, slots]
    exact ⟨by simp, fun i above below => absurd below (by omega)⟩
  · rw [width, slots]
    refine ⟨by simp, fun i above below => ?_⟩
    obtain rfl : i = front.length + 1 := by omega
    simp

theorem numbered_iff (items : List WrittenConstant) (front : List (Option Constant)) (i : Nat)
    (constant : Constant) :
    (front ++ WrittenConstant.slots items)[i]? = some (some constant) ∧ front.length ≤ i ↔
      (i, constant) ∈ WrittenConstant.numbered front.length items := by
  induction items generalizing front with
  | nil =>
    rw [WrittenConstant.slots, List.flatMap_nil, List.append_nil, WrittenConstant.numbered]
    simp only [List.not_mem_nil, iff_false, not_and, not_le]
    exact fun found => (List.getElem?_eq_some_iff.mp found).1
  | cons item items ih =>
    have later := ih (front ++ item.constant.slots)
    obtain ⟨first, others⟩ := filled_by item.constant front (WrittenConstant.slots items)
    rw [List.append_assoc, List.length_append, item.constant.length_slots] at later
    rw [WrittenConstant.slots_cons, WrittenConstant.numbered, List.mem_cons, ← later,
      Prod.mk.injEq]
    constructor
    · rintro ⟨found, behind⟩
      by_cases here : i = front.length
      · subst here
        rw [first] at found
        cases found
        exact .inl ⟨rfl, rfl⟩
      · refine .inr ⟨found, ?_⟩
        by_contra within
        rw [others i (by omega) (by omega)] at found
        cases found
    · rintro (⟨rfl, rfl⟩ | ⟨found, behind⟩)
      · exact ⟨first, le_rfl⟩
      · exact ⟨found, by omega⟩

theorem unusable_iff (items : List WrittenConstant) (before : Option Constant)
    (narrow : ∀ constant ∈ before, constant.isWide = false) (i : Nat)
    (within : i < (WrittenConstant.slots items).length) :
    (WrittenConstant.slots items)[i]? = some none ↔ ∃ constant, constant.isWide = true ∧
      (before :: WrittenConstant.slots items)[i]? = some (some constant) := by
  induction items generalizing before i with
  | nil => exact absurd within (Nat.not_lt_zero i)
  | cons item items ih =>
    have first : ¬ ∃ constant, constant.isWide = true ∧ some before = some (some constant) := by
      rintro ⟨constant, wide, same⟩
      cases same
      rw [narrow constant rfl] at wide
      cases wide
    rw [WrittenConstant.slots_cons] at within ⊢
    rcases item.constant.cases_width with ⟨isNarrow, -, slots⟩ | ⟨isWide, -, slots⟩
    · rw [slots] at within ⊢
      cases i with
      | zero => exact iff_of_false nofun first
      | succ i =>
        refine ih (some item.constant) ?_ i (Nat.lt_of_succ_lt_succ within)
        rintro _ ⟨⟩
        exact isNarrow
    · rw [slots] at within ⊢
      match i with
      | 0 => exact iff_of_false nofun first
      | 1 => exact iff_of_true rfl ⟨item.constant, isWide, rfl⟩
      | i + 2 => exact ih none nofun i (Nat.lt_of_succ_lt_succ (Nat.lt_of_succ_lt_succ within))

theorem length_slots (items : List WrittenConstant) :
    (WrittenConstant.slots items).length + 1 = WrittenConstant.following items := by
  rw [WrittenConstant.slots, List.length_flatMap, WrittenConstant.following, Nat.add_comm]
  simp only [Constant.length_slots]

/-- What a pool of written constants holds, given the number of slots that it is said to have. -/
structure Numbers (pool : Pool) (count : Nat) (items : List WrittenConstant) : Prop where
  size : pool.size = max count 1
  first : pool.slots[0]? = some none
  unusable : ∀ i, i + 1 < pool.size →
    (pool.slots[i + 1]? = some none ↔ pool.Holds i .long ∨ pool.Holds i .double)
  holds : ∀ i constant, pool.Holds i constant ↔ (i, constant) ∈ WrittenConstant.numbered 1 items

variable {pool : Pool} {count : Nat} {items : List WrittenConstant} {index : UInt16} {text : String}

theorem numbers_of_filled (filled : pool.slots.toList = none :: WrittenConstant.slots items)
    (counted : WrittenConstant.following items = max count 1) : pool.Numbers count items := by
  have slotAt (i : Nat) : pool.slots[i]? = (none :: WrittenConstant.slots items)[i]? := by
    rw [← filled, Array.getElem?_toList]
  have size : pool.size = (WrittenConstant.slots items).length + 1 := by
    rw [Pool.size, ← Array.length_toList, filled, List.length_cons]
  refine ⟨?_, ?_, ?_, ?_⟩
  · rw [size, length_slots, counted]
  · exact slotAt 0
  · intro i within
    rw [size] at within
    have unusable := unusable_iff items none (by simp) i (Nat.lt_of_succ_lt_succ within)
    rw [slotAt, List.getElem?_cons_succ, unusable, Holds, Holds, slotAt]
    simp only [Constant.isWide_iff, or_and_right, exists_or, exists_eq_left]
  · intro i constant
    have numbered := numbered_iff items [none] i constant
    rw [List.singleton_append, List.length_singleton] at numbered
    rw [Holds, slotAt, ← numbered]
    refine ⟨fun found => ⟨found, ?_⟩, And.left⟩
    cases i with
    | zero => cases found
    | succ i => exact Nat.le_add_left 1 i

theorem get_eq_ok : pool.get index = .ok constant ↔ pool.Holds index.toNat constant := by
  unfold get Holds
  split
  · rename_i found
    rw [found, Except.ok.injEq, Option.some.injEq, Option.some.injEq]
  · rename_i other
    exact iff_of_false nofun (other constant)

theorem utf8_eq_ok : pool.utf8 index = .ok text ↔ pool.Holds index.toNat (.utf8 text) := by
  rw [utf8, bind_eq_ok]
  constructor
  · rintro ⟨constant, found, read⟩
    split at read
    · cases read
      exact get_eq_ok.mp found
    · cases read
  · exact fun held => ⟨_, get_eq_ok.mpr held, rfl⟩

theorem className_eq_ok : pool.className index = .ok text ↔ ∃ name : UInt16,
    pool.Holds index.toNat (.classInfo name) ∧ pool.Holds name.toNat (.utf8 text) := by
  rw [className, bind_eq_ok]
  constructor
  · rintro ⟨constant, found, read⟩
    split at read
    · exact ⟨_, get_eq_ok.mp found, utf8_eq_ok.mp read⟩
    · cases read
  · rintro ⟨name, held, named⟩
    exact ⟨_, get_eq_ok.mpr held, utf8_eq_ok.mpr named⟩

theorem Numbers.get_succeeds (numbers : pool.Numbers count items) :
    (∃ constant, pool.get index = .ok constant) ↔
      index.toNat < count ∧ pool.slots[index.toNat]? ≠ some none := by
  have size : pool.slots.size = max count 1 := numbers.size
  simp only [get_eq_ok, Holds]
  constructor
  · rintro ⟨constant, held⟩
    have notFirst : index.toNat ≠ 0 := by
      intro same
      rw [same, numbers.first] at held
      cases held
    obtain ⟨within, -⟩ := Array.getElem?_eq_some_iff.mp held
    exact ⟨by omega, by rw [held]; nofun⟩
  · rintro ⟨within, usable⟩
    have inside : index.toNat < pool.slots.size := by omega
    rw [Array.getElem?_eq_getElem inside] at usable ⊢
    cases slot : pool.slots[index.toNat] with
    | none => exact absurd (congrArg some slot) usable
    | some constant => exact ⟨constant, rfl⟩

end Pool

/-- A pool that is read is made of the bytes of some constants behind the number of its slots, and no
other bytes are taken. It has so many slots, but at least slot 0, which is empty; each constant is in
the slot of its number, and the slot behind each eight-byte constant is empty. What is looked up is
what is in the slots. No pool is read in whose last slot an eight-byte constant would begin. -/
theorem pool_numbering :
    (∀ cursor pool next, Pool.decoder cursor = .ok pool next →
      ∃ (count : UInt16) (items : List WrittenConstant),
        cursor.rest = twoBytes count ++ items.flatMap WrittenConstant.bytes ++ next.rest ∧
        next.pos = cursor.pos + 2 + (items.map fun item => item.bytes.length).sum ∧
        pool.Numbers count.toNat items ∧
        (∀ index constant, pool.get index = .ok constant ↔ pool.Holds index.toNat constant) ∧
        (∀ index, (∃ constant, pool.get index = .ok constant) ↔
          index.toNat < count.toNat ∧ pool.slots[index.toNat]? ≠ some none) ∧
        ∀ index text, pool.className index = .ok text ↔ ∃ name : UInt16,
          pool.Holds index.toNat (.classInfo name) ∧ pool.Holds name.toNat (.utf8 text)) ∧
    ∀ (cursor : Cursor) (count : UInt16) (items : List WrittenConstant) (tag : UInt8)
      (rest : List UInt8),
      cursor.rest = twoBytes count ++ items.flatMap WrittenConstant.bytes ++ tag :: rest →
      WrittenConstant.following items = count.toNat - 1 → tag = 5 ∨ tag = 6 →
      ∀ pool next, Pool.decoder cursor ≠ .ok pool next := by
  constructor
  · intro cursor pool next success
    obtain ⟨_, ⟨count, items, rfl, filled, counted⟩, rest, pos⟩ :=
      Pool.decoder_takes cursor pool next success
    have numbers := Pool.numbers_of_filled filled counted
    refine ⟨count, items, rest, ?_, numbers, fun _ _ => Pool.get_eq_ok,
      fun _ => numbers.get_succeeds, fun _ _ => Pool.className_eq_ok⟩
    rw [pos, List.length_append, List.length_flatMap, Nat.add_assoc]
    rfl
  · intro cursor count items tag rest opens last tagged pool next
    exact Pool.decoder_last_fails opens last tagged

namespace Pool.Sample

/-- Six slots: a text that is not UTF-8, a class, an eight-byte constant and an empty text. One more
byte follows. -/
def sixSlots : List UInt8 :=
  [0, 6, 1, 0, 1, 0xFF, 7, 0, 5, 5, 0, 0, 0, 0, 0, 0, 0, 1, 1, 0, 0, 9]

def pool : Pool :=
  ⟨#[none, some (.utf8 "\uFFFD"), some (.classInfo 5), some .long, none, some (.utf8 "")]⟩

def emptyText : WrittenConstant :=
  ⟨.utf8 "", [1, 0, 0], [0, 0], rfl, [], by decide, rfl, rfl⟩

end Pool.Sample

open Pool.Sample in
/-- The eight-byte constant of the sample, and one that does not fit in behind an empty text. -/
theorem pool_numbering_wide :
    (Pool.decoder ⟨10, sixSlots⟩ = .ok pool ⟨31, [9]⟩ ∧
      (∃ (count : UInt16) (items : List WrittenConstant),
        sixSlots = twoBytes count ++ items.flatMap WrittenConstant.bytes ++ [9] ∧
        pool.Numbers count.toNat items) ∧
      pool.className 2 = .ok "" ∧ ¬ ∃ constant, pool.get 4 = .ok constant) ∧
    ∀ pool next, Pool.decoder ⟨0, [0, 3, 1, 0, 0, 5, 0]⟩ ≠ .ok pool next := by
  have success : Pool.decoder ⟨10, sixSlots⟩ = .ok pool ⟨31, [9]⟩ := rfl
  obtain ⟨count, items, taken, -, numbers, -, succeeds, named⟩ := pool_numbering.1 _ _ _ success
  refine ⟨⟨success, ⟨count, items, taken, numbers⟩, (named 2 "").mpr ⟨5, rfl, rfl⟩, ?_⟩, ?_⟩
  · exact fun found => ((succeeds 4).mp found).2 rfl
  · exact pool_numbering.2 ⟨0, _⟩ 3 [emptyText] 5 [0] rfl rfl (.inl rfl)

end Linkage
