import Linkage.Proofs.ClassFormat

/-!
# Class files that are cut short

A decoder that is `Sequential` reads on from front to back: what it gives depends on the bytes it
takes and on nothing behind them, and when some of these bytes are missing it finds the data
truncated, whatever else could be wrong with it. All parts of the decoder of class files are
sequential, since the body of an attribute is taken as a whole before it is looked into.
-/

namespace Linkage

namespace Decoder

variable {α β : Type} {decoder : Decoder α} {taken more : List UInt8} {value : α}

/-- Whether a decoder finds every proper beginning of some bytes truncated. -/
def Starves (decoder : Decoder α) (taken : List UInt8) : Prop :=
  ∀ pos count, count < taken.length → ∃ offset wanted left,
    decoder ⟨pos, taken.take count⟩ = .error (.truncated offset wanted) left

/-- Whether all that a decoder gives depends on are the bytes that it takes, and on each of them. -/
def Sequential (decoder : Decoder α) : Prop :=
  ∀ cursor value next, decoder cursor = .ok value next →
    ∃ taken, cursor.rest = taken ++ next.rest ∧ decoder.Reads taken value ∧ decoder.Starves taken

theorem starves_nil : decoder.Starves [] := fun _ _ short => absurd short (Nat.not_lt_zero _)

theorem Starves.bind {next : α → Decoder β} (reads : decoder.Reads taken value)
    (first : decoder.Starves taken) (second : (next value).Starves more) :
    (decoder >>= next).Starves (taken ++ more) := by
  intro pos count short
  by_cases within : count < taken.length
  · obtain ⟨offset, wanted, left, failed⟩ := first pos count within
    rw [List.take_append_of_le_length within.le]
    exact ⟨offset, wanted, left, bind_of_error failed⟩
  · have behind : count - taken.length < more.length := by
      rw [List.length_append] at short
      omega
    obtain ⟨offset, wanted, left, failed⟩ := second (pos + taken.length) _ behind
    rw [List.take_append, List.take_of_length_le (Nat.not_lt.mp within)]
    exact ⟨offset, wanted, left, (bind_of_ok (reads pos _)).trans failed⟩

theorem sequential_pure (value : α) : (pure value : Decoder α).Sequential := by
  rintro cursor _ _ ⟨⟩
  exact ⟨[], rfl, pure_reads value, starves_nil⟩

theorem sequential_throw (fault : Fault) : (throw fault : Decoder α).Sequential := nofun

theorem sequential_lift (result : Except Fault α) : (liftM result : Decoder α).Sequential := by
  intro cursor value next success
  obtain ⟨given, rfl⟩ := lift_ok success
  exact ⟨[], rfl, lift_reads given, starves_nil⟩

theorem Sequential.bind {next : α → Decoder β} (first : decoder.Sequential)
    (second : ∀ value, (next value).Sequential) : (decoder >>= next).Sequential := by
  intro cursor final last success
  obtain ⟨value, between, opened, done⟩ := ok_of_bind success
  obtain ⟨taken, front, reads, starves⟩ := first cursor value between opened
  obtain ⟨more, back, reads', starves'⟩ := second value between final last done
  refine ⟨taken ++ more, ?_, reads.bind reads', starves.bind reads starves'⟩
  rw [front, back, List.append_assoc]

theorem Sequential.map {f : α → β} (sequential : decoder.Sequential) :
    (decoder >>= fun value => pure (f value)).Sequential :=
  sequential.bind fun value => sequential_pure (f value)

theorem u1_sequential : u1.Sequential := by
  rintro ⟨pos, rest⟩ value next success
  match rest, success with
  | b :: rest, rfl =>
    refine ⟨[b], rfl, u1_reads b, fun pos count short => ?_⟩
    match count, short with
    | 0, _ => exact ⟨pos, 1, _, rfl⟩

theorem u2_sequential : u2.Sequential := by
  rintro ⟨pos, rest⟩ value next success
  match rest, success with
  | b₁ :: b₀ :: rest, rfl =>
    refine ⟨[b₁, b₀], rfl, fun _ _ => rfl, fun pos count short => ?_⟩
    match count, short with
    | 0, _ | 1, _ => exact ⟨pos, 2, _, rfl⟩

theorem u4_sequential : u4.Sequential := by
  rintro ⟨pos, rest⟩ value next success
  match rest, success with
  | b₃ :: b₂ :: b₁ :: b₀ :: rest, rfl =>
    refine ⟨[b₃, b₂, b₁, b₀], rfl, fun _ _ => rfl, fun pos count short => ?_⟩
    match count, short with
    | 0, _ | 1, _ | 2, _ | 3, _ => exact ⟨pos, 4, _, rfl⟩

theorem bytes_sequential (count : Nat) : (Decoder.bytes count).Sequential := by
  intro cursor part next success
  obtain ⟨exact, -⟩ := bytes_length success
  refine ⟨part, ?_, bytes_reads part exact, fun pos fewer short => ?_⟩
  · unfold Decoder.bytes at success
    split at success
    · cases success
      exact (List.take_append_drop count cursor.rest).symm
    · cases success
  · refine ⟨pos, count, ⟨pos, part.take fewer⟩, if_neg fun enough => ?_⟩
    rw [reaches_eq_true_iff, List.length_take] at enough
    omega

theorem skip_sequential (count : Nat) : (skip count).Sequential := (bytes_sequential count).map

theorem u4Prefixed_sequential : u4Prefixed.Sequential :=
  u4_sequential.bind fun size => bytes_sequential size.toNat

theorem Sequential.many (each : decoder.Sequential) (count : Nat) :
    (many count decoder).Sequential := by
  unfold Decoder.many
  induction count with
  | zero => exact sequential_pure []
  | succ count ih =>
    rw [List.replicate_succ, List.mapM_cons]
    exact each.bind fun _ => ih.map

theorem Sequential.counted (each : decoder.Sequential) : (counted decoder).Sequential :=
  u2_sequential.bind fun count => each.many count.toNat

theorem sequential_lookup {look : UInt16 → Except Fault α} {next : α → Decoder β}
    (others : ∀ value, (next value).Sequential) :
    (u2 >>= fun index => (liftM (look index) : Decoder α) >>= next).Sequential :=
  u2_sequential.bind fun index => (sequential_lift (look index)).bind others

theorem Sequential.decode {data : List UInt8} (sequential : decoder.Sequential)
    (success : Decoder.decode decoder data = .ok value) :
    ∃ size ≤ data.length,
      (∀ trailing, Decoder.decode decoder (data.take size ++ trailing) = .ok value) ∧
      ∀ count < size, ∃ offset wanted,
        Decoder.decode decoder (data.take count) = .error (.truncated offset wanted) := by
  unfold Decoder.decode at success
  split at success
  case h_2 => cases success
  case h_1 found next opened =>
    cases success
    obtain ⟨taken, front, reads, starves⟩ := sequential _ _ _ opened
    change data = taken ++ next.rest at front
    subst front
    refine ⟨taken.length, by simp, fun trailing => ?_, fun count short => ?_⟩
    · rw [List.take_left]
      exact reads.decode trailing
    · obtain ⟨offset, wanted, left, failed⟩ := starves 0 count short
      rw [List.take_append_of_le_length short.le]
      exact ⟨offset, wanted, decode_of_error failed⟩

end Decoder

open Decoder

theorem constant_sequential (index : UInt16) : (Constant.decoder index).Sequential := by
  have text : (u2 >>= fun size => bytes size.toNat >>= fun part =>
      pure (Constant.utf8 (Utf8.decodeLossy part))).Sequential :=
    u2_sequential.bind fun size => (bytes_sequential size.toNat).map
  have passed (count : Nat) (constant : Constant) :
      (skip count >>= fun _ => pure constant).Sequential := (skip_sequential count).map
  have one (make : UInt16 → Constant) : (u2 >>= fun index => pure (make index)).Sequential :=
    u2_sequential.map
  have two (make : UInt16 → UInt16 → Constant) :
      (u2 >>= fun first => u2 >>= fun second => pure (make first second)).Sequential :=
    u2_sequential.bind fun first => one (make first)
  refine u1_sequential.bind fun tag => ?_
  split
  case h_1 => exact text
  case h_2 | h_3 | h_4 | h_5 => exact passed _ _
  case h_6 | h_7 | h_13 | h_16 | h_17 => exact one _
  case h_8 | h_9 | h_10 | h_11 | h_14 | h_15 => exact two _
  case h_12 => exact u1_sequential.bind fun kind => one _
  case h_18 => exact sequential_throw _

theorem slots_sequential (slots : Array (Option Constant)) (left : Nat) :
    (Pool.slotsDecoder slots left).Sequential := by
  induction left using Nat.strong_induction_on generalizing slots with
  | _ left ih =>
    match left with
    | 0 => exact sequential_pure slots
    | 1 =>
      refine (constant_sequential _).bind fun constant => ?_
      split
      · exact (sequential_throw _).bind fun _ => sequential_pure _
      · exact (sequential_pure _).bind fun _ => sequential_pure _
    | left + 2 =>
      refine (constant_sequential _).bind fun constant => ?_
      split
      · exact ih left (by omega) _
      · exact ih (left + 1) (by omega) _

theorem pool_sequential : Pool.decoder.Sequential :=
  u2_sequential.bind fun _ => (slots_sequential _ _).map

namespace Attribute

variable (pool : Pool)

theorem header_sequential : (header pool).Sequential :=
  sequential_lookup fun _ => u4Prefixed_sequential.map

theorem rows_sequential (count : Nat) (before : List Attribute) :
    (rows pool count before).Sequential := by
  induction count generalizing before with
  | zero =>
    have done : rows pool 0 before = pure before.reverse := by
      funext cursor
      rw [rows]
      rfl
    rw [done]
    exact sequential_pure _
  | succ count ih =>
    rw [rows_succ]
    exact (header_sequential pool).bind fun _ =>
      (sequential_lift _).bind fun found => ih (found :: before)

theorem table_sequential : (table pool).Sequential :=
  u2_sequential.bind fun count => rows_sequential pool count.toNat []

end Attribute

theorem member_sequential (pool : Pool) : (Member.decoder pool).Sequential :=
  u2_sequential.bind fun _ => sequential_lookup fun _ => sequential_lookup fun _ =>
    (Attribute.table_sequential pool).map

theorem classFile_sequential : ClassFile.decoder.Sequential := by
  have interface (pool : Pool) :
      (u2 >>= fun index => (liftM (pool.className index) : Decoder String)).Sequential :=
    u2_sequential.bind fun index => sequential_lift (pool.className index)
  refine u4_sequential.bind fun found => ?_
  split
  · rintro _ _ _ ⟨⟩
  · refine u2_sequential.bind fun minor => ?_
    refine u2_sequential.bind fun major => ?_
    refine pool_sequential.bind fun pool => ?_
    refine u2_sequential.bind fun flags => ?_
    refine sequential_lookup fun thisClass => ?_
    refine sequential_lookup fun superClass => ?_
    refine (interface pool).counted.bind fun interfaces => ?_
    refine (member_sequential pool).counted.bind fun fields => ?_
    refine (member_sequential pool).counted.bind fun methods => ?_
    exact (Attribute.table_sequential pool).map

/-- A class file has an end, which no shorter beginning of it reaches: what comes behind the end does
not matter, and cut off anywhere before it, the file is found to be truncated. -/
theorem ofBytes_extent {data : List UInt8} {unit : ClassFile}
    (success : ClassFile.ofBytes data = .ok unit) :
    ∃ size ≤ data.length,
      (∀ trailing, ClassFile.ofBytes (data.take size ++ trailing) = .ok unit) ∧
      ∀ count < size, ∃ offset wanted,
        ClassFile.ofBytes (data.take count) = .error (.truncated offset wanted) :=
  classFile_sequential.decode success

theorem ofBytes_extent_sample :
    ClassFile.ofBytes (ClassForm.Sample.form.encode ++ [0xFF]) = .ok ClassForm.Sample.form.meaning ∧
    ∃ size ≤ (ClassForm.Sample.form.encode ++ [0xFF]).length,
      (∀ trailing, ClassFile.ofBytes ((ClassForm.Sample.form.encode ++ [0xFF]).take size ++ trailing)
        = .ok ClassForm.Sample.form.meaning) ∧
      ∀ count < size, ∃ offset wanted,
        ClassFile.ofBytes ((ClassForm.Sample.form.encode ++ [0xFF]).take count)
          = .error (.truncated offset wanted) := by
  have success : ClassFile.ofBytes (ClassForm.Sample.form.encode ++ [0xFF]) = _ :=
    (classFile_reads ClassForm.Sample.form_fits).decode [0xFF]
  exact ⟨success, ofBytes_extent success⟩

end Linkage
