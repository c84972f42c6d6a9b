import Linkage.Bytes.Cursor
import Mathlib.Algebra.Ring.Nat
import Mathlib.Data.List.Basic

/-!
# What decoders read

`Decoder.Reads` says which bytes a decoder takes for which value, wherever they stand and whatever
follows them. A decoder made of parts takes the bytes of the parts in a row. `Decoder.Takes` is the
converse: which bytes a decoder can have taken for a value. `Decoder.Refuses` says at which bytes a
decoder stops, and with which fault. `Decoder.Gives` says what holds of all values that come of a
decoder, whatever the data.
-/

namespace Linkage

def twoBytes (n : UInt16) : List UInt8 := [(n >>> 8).toUInt8, n.toUInt8]

def fourBytes (n : UInt32) : List UInt8 :=
  [(n >>> 24).toUInt8, (n >>> 16).toUInt8, (n >>> 8).toUInt8, n.toUInt8]

def eightBytes (n : UInt64) : List UInt8 :=
  fourBytes (n >>> 32).toUInt32 ++ fourBytes n.toUInt32

namespace Decoder

variable {α β : Type} {decoder : Decoder α} {bytes more : List UInt8} {value : α}

def Reads (decoder : Decoder α) (bytes : List UInt8) (value : α) : Prop :=
  ∀ pos trailing, decoder ⟨pos, bytes ++ trailing⟩ = .ok value ⟨pos + bytes.length, trailing⟩

theorem Reads.decode (reads : decoder.Reads bytes value) (trailing : List UInt8) :
    Decoder.decode decoder (bytes ++ trailing) = .ok value := by
  unfold Decoder.decode Cursor.start
  rw [reads]

theorem Reads.decode_all (reads : decoder.Reads bytes value) :
    Decoder.decode decoder bytes = .ok value := by
  rw [← reads.decode [], List.append_nil]

theorem pure_reads (value : α) : (pure value : Decoder α).Reads [] value := fun _ _ => rfl

theorem Reads.bind {next : α → Decoder β} {final : β} (first : decoder.Reads bytes value)
    (second : (next value).Reads more final) : (decoder >>= next).Reads (bytes ++ more) final := by
  intro pos trailing
  change EStateM.bind decoder next _ = _
  rw [EStateM.bind, List.append_assoc, first, List.length_append, ← Nat.add_assoc]
  exact second _ trailing

theorem Reads.map {f : α → β} (reads : decoder.Reads bytes value) :
    (decoder >>= fun value => pure (f value)).Reads bytes (f value) := by
  have both : (decoder >>= fun value => pure (f value)).Reads (bytes ++ []) (f value) :=
    reads.bind (pure_reads (f value))
  rwa [List.append_nil] at both

theorem lift_reads {result : Except Fault α} (success : result = .ok value) :
    (liftM result : Decoder α).Reads [] value := by
  subst success
  exact pure_reads value

theorem Reads.after_lift {result : Except Fault α} {next : α → Decoder β} {final : β}
    (success : result = .ok value) (second : (next value).Reads bytes final) :
    ((liftM result : Decoder α) >>= next).Reads bytes final :=
  (lift_reads success).bind second

theorem u1_reads (b : UInt8) : u1.Reads [b] b := fun _ _ => rfl

theorem Reads.after_tag {next : UInt8 → Decoder α} {tag : UInt8}
    (reads : (next tag).Reads bytes value) : (u1 >>= next).Reads (tag :: bytes) value :=
  (u1_reads tag).bind reads

theorem or_of_lt {high low k : Nat} (below : low < 2 ^ k) :
    high * 2 ^ k ||| low = high * 2 ^ k + low := by
  rw [Nat.mul_comm, ← Nat.two_pow_add_eq_or_of_lt below]

theorem join_two (n : UInt16) :
    (n >>> 8).toUInt8.toUInt16 <<< 8 ||| n.toUInt8.toUInt16 = n := by
  apply UInt16.toNat_inj.mp
  have small := n.toNat_lt
  simp only [UInt16.toNat_or, UInt16.toNat_shiftLeft, UInt8.toNat_toUInt16, UInt16.toNat_toUInt8,
    UInt16.toNat_shiftRight, UInt16.reduceToNat, Nat.reduceMod, Nat.shiftRight_eq_div_pow,
    Nat.shiftLeft_eq]
  generalize n.toNat = m at small
  rw [show m / 2 ^ 8 % 2 ^ 8 * 2 ^ 8 % 2 ^ 16 = m / 2 ^ 8 * 2 ^ 8 by omega, or_of_lt (by omega)]
  omega

theorem join_two_toNat (b₁ b₀ : UInt8) :
    (b₁.toUInt16 <<< 8 ||| b₀.toUInt16).toNat = b₁.toNat * 2 ^ 8 + b₀.toNat := by
  have small₀ := b₀.toNat_lt
  have small₁ := b₁.toNat_lt
  simp only [UInt16.toNat_or, UInt16.toNat_shiftLeft, UInt8.toNat_toUInt16, UInt16.reduceToNat,
    Nat.reduceMod, Nat.shiftLeft_eq]
  rw [show b₁.toNat * 2 ^ 8 % 2 ^ 16 = b₁.toNat * 2 ^ 8 by omega, or_of_lt (by omega)]

theorem two_join (b₁ b₀ : UInt8) :
    twoBytes (b₁.toUInt16 <<< 8 ||| b₀.toUInt16) = [b₁, b₀] := by
  have small₀ := b₀.toNat_lt
  have small₁ := b₁.toNat_lt
  have joined := join_two_toNat b₁ b₀
  have high : ((b₁.toUInt16 <<< 8 ||| b₀.toUInt16) >>> 8).toUInt8 = b₁ := by
    apply UInt8.toNat_inj.mp
    simp only [UInt16.toNat_toUInt8, UInt16.toNat_shiftRight, UInt16.reduceToNat, Nat.reduceMod,
      Nat.shiftRight_eq_div_pow, joined]
    omega
  have low : (b₁.toUInt16 <<< 8 ||| b₀.toUInt16).toUInt8 = b₀ := by
    apply UInt8.toNat_inj.mp
    rw [UInt16.toNat_toUInt8, joined]
    omega
  rw [twoBytes, high, low]

theorem join_toNat (b₃ b₂ b₁ b₀ : UInt8) :
    (b₃.toUInt32 <<< 24 ||| b₂.toUInt32 <<< 16 ||| b₁.toUInt32 <<< 8 ||| b₀.toUInt32).toNat =
      b₃.toNat * 2 ^ 24 + b₂.toNat * 2 ^ 16 + b₁.toNat * 2 ^ 8 + b₀.toNat := by
  have small₀ := b₀.toNat_lt
  have small₁ := b₁.toNat_lt
  have small₂ := b₂.toNat_lt
  have small₃ := b₃.toNat_lt
  simp only [UInt32.toNat_or, UInt32.toNat_shiftLeft, UInt8.toNat_toUInt32, UInt32.reduceToNat,
    Nat.reduceMod, Nat.shiftLeft_eq]
  rw [show b₁.toNat * 2 ^ 8 % 2 ^ 32 = b₁.toNat * 2 ^ 8 by omega,
    show b₂.toNat * 2 ^ 16 % 2 ^ 32 = b₂.toNat * 2 ^ 16 by omega,
    show b₃.toNat * 2 ^ 24 % 2 ^ 32 = b₃.toNat * 2 ^ 24 by omega, or_of_lt (by omega),
    show b₃.toNat * 2 ^ 24 + b₂.toNat * 2 ^ 16 = (b₃.toNat * 2 ^ 8 + b₂.toNat) * 2 ^ 16 by omega,
    or_of_lt (by omega),
    show (b₃.toNat * 2 ^ 8 + b₂.toNat) * 2 ^ 16 + b₁.toNat * 2 ^ 8 =
      (b₃.toNat * 2 ^ 16 + b₂.toNat * 2 ^ 8 + b₁.toNat) * 2 ^ 8 by omega,
    or_of_lt (by omega)]

theorem join_four (n : UInt32) :
    (n >>> 24).toUInt8.toUInt32 <<< 24 ||| (n >>> 16).toUInt8.toUInt32 <<< 16 |||
      (n >>> 8).toUInt8.toUInt32 <<< 8 ||| n.toUInt8.toUInt32 = n := by
  apply UInt32.toNat_inj.mp
  have small := n.toNat_lt
  rw [join_toNat]
  simp only [UInt32.toNat_toUInt8, UInt32.toNat_shiftRight, UInt32.reduceToNat, Nat.reduceMod,
    Nat.shiftRight_eq_div_pow]
  omega

theorem u2_reads (n : UInt16) : u2.Reads (twoBytes n) n := by
  intro pos trailing
  change EStateM.Result.ok ((n >>> 8).toUInt8.toUInt16 <<< 8 ||| n.toUInt8.toUInt16) _ = _
  rw [join_two]
  rfl

theorem u4_reads (n : UInt32) : u4.Reads (fourBytes n) n := by
  intro pos trailing
  change EStateM.Result.ok ((n >>> 24).toUInt8.toUInt32 <<< 24 |||
    (n >>> 16).toUInt8.toUInt32 <<< 16 ||| (n >>> 8).toUInt8.toUInt32 <<< 8 |||
    n.toUInt8.toUInt32) _ = _
  rw [join_four]
  rfl

section Lookup

variable {look : UInt16 → Except Fault α} {index : UInt16}

theorem Reads.after_lookup {next : α → Decoder β} {final : β} (found : look index = .ok value)
    (reads : (next value).Reads bytes final) :
    (u2 >>= fun index => (liftM (look index) : Decoder α) >>= next).Reads
      (twoBytes index ++ bytes) final :=
  (u2_reads index).bind (reads.after_lift found)

theorem lookup_reads (found : look index = .ok value) {f : α → β} :
    (u2 >>= fun index => (liftM (look index) : Decoder α) >>= fun value => pure (f value)).Reads
      (twoBytes index) (f value) := by
  rw [← List.append_nil (twoBytes index)]
  exact (pure_reads (f value)).after_lookup found

end Lookup

theorem bytes_reads {count : Nat} (part : List UInt8) (exact : part.length = count) :
    (Decoder.bytes count).Reads part part := by
  intro pos trailing
  subst exact
  unfold Decoder.bytes
  rw [if_pos (by simp), List.take_left, List.drop_left]

theorem skip_reads {count : Nat} (part : List UInt8) (exact : part.length = count) :
    (skip count).Reads part () :=
  (bytes_reads part exact).map

def prefixed (part : List UInt8) : List UInt8 := fourBytes (UInt32.ofNat part.length) ++ part

theorem u4Prefixed_reads (part : List UInt8) (fits : part.length < 2 ^ 32) :
    u4Prefixed.Reads (prefixed part) part := by
  refine (u4_reads _).bind (bytes_reads part ?_)
  rw [UInt32.toNat_ofNat_of_lt' fits]

def listed (encode : β → List UInt8) (items : List β) : List UInt8 :=
  twoBytes (UInt16.ofNat items.length) ++ items.flatMap encode

structure Listable (fits : β → Prop) (items : List β) : Prop where
  few : items.length < 2 ^ 16
  each : ∀ item ∈ items, fits item

variable {encode : β → List UInt8} {mean : β → α} {items : List β} {fits : β → Prop}

theorem many_reads (each : ∀ item ∈ items, decoder.Reads (encode item) (mean item)) :
    (many items.length decoder).Reads (items.flatMap encode) (items.map mean) := by
  unfold many
  induction items with
  | nil => exact pure_reads []
  | cons item items ih =>
    obtain ⟨first, rest⟩ := List.forall_mem_cons.mp each
    rw [List.length_cons, List.replicate_succ, List.mapM_cons, List.flatMap_cons, List.map_cons]
    exact first.bind (ih rest).map

theorem counted_reads (listable : Listable fits items)
    (reads : ∀ item, fits item → decoder.Reads (encode item) (mean item)) :
    (counted decoder).Reads (listed encode items) (items.map mean) := by
  refine (u2_reads _).bind ?_
  rw [UInt16.toNat_ofNat_of_lt' listable.few]
  exact many_reads fun item member => reads item (listable.each item member)

/-! ## One step after the other -/

section Steps

variable {next : α → Decoder β} {cursor between left : Cursor} {fault : Fault}

theorem bind_of_ok (opened : decoder cursor = .ok value between) :
    (decoder >>= next) cursor = next value between := by
  change EStateM.bind decoder next cursor = _
  rw [EStateM.bind, opened]

theorem bind_of_error (failed : decoder cursor = .error fault left) :
    (decoder >>= next) cursor = .error fault left := by
  change EStateM.bind decoder next cursor = _
  rw [EStateM.bind, failed]

theorem lift_bind_of_ok {result : Except Fault α} (given : result = .ok value) :
    ((liftM result : Decoder α) >>= next) cursor = next value cursor := by
  subst given
  rfl

theorem lift_bind_of_error {result : Except Fault α} (failed : result = .error fault) :
    ((liftM result : Decoder α) >>= next) cursor = .error fault cursor := by
  subst failed
  rfl

theorem decode_of_error {data : List UInt8}
    (failed : decoder (Cursor.start data) = .error fault left) :
    Decoder.decode decoder data = .error fault := by
  rw [Decoder.decode, failed]

theorem decode_of_ok {data : List UInt8} (opened : decoder (Cursor.start data) = .ok value left) :
    Decoder.decode decoder data = .ok value := by
  rw [Decoder.decode, opened]

end Steps

/-! ## What decoders give -/

def Gives (decoder : Decoder α) (good : α → Prop) : Prop :=
  ∀ cursor value next, decoder cursor = .ok value next → good value

variable {good : α → Prop} {good' : β → Prop}

theorem gives_pure (holds : good value) : (pure value : Decoder α).Gives good := by
  rintro _ _ _ ⟨⟩
  exact holds

theorem gives_lift {result : Except Fault α} (holds : ∀ value, result = .ok value → good value) :
    (liftM result : Decoder α).Gives good :=
  fun _ value _ given => holds value (lift_ok given).1

theorem Gives.bind {next : α → Decoder β} (first : decoder.Gives good)
    (second : ∀ value, good value → (next value).Gives good') : (decoder >>= next).Gives good' := by
  intro cursor final last given
  obtain ⟨value, between, opened, done⟩ := ok_of_bind given
  exact second value (first cursor value between opened) between final last done

theorem gives_bind {next : α → Decoder β} (second : ∀ value, (next value).Gives good') :
    (decoder >>= next).Gives good' := by
  have any : decoder.Gives fun _ => True := fun _ _ _ _ => trivial
  exact any.bind fun value _ => second value

theorem Gives.many (each : decoder.Gives good) (count : Nat) :
    (many count decoder).Gives fun values => ∀ value ∈ values, good value := by
  unfold Decoder.many
  induction count with
  | zero => exact gives_pure nofun
  | succ count ih =>
    rw [List.replicate_succ, List.mapM_cons]
    exact each.bind fun first holds => ih.bind fun others hold =>
      gives_pure (List.forall_mem_cons.mpr ⟨holds, hold⟩)

theorem Gives.counted (each : decoder.Gives good) :
    (counted decoder).Gives fun values => ∀ value ∈ values, good value :=
  gives_bind fun _ => each.many _

theorem Gives.decode {data : List UInt8} (gives : decoder.Gives good)
    (decoded : Decoder.decode decoder data = .ok value) : good value := by
  unfold Decoder.decode at decoded
  split at decoded
  · rename_i opened
    cases decoded
    exact gives _ _ _ opened
  · cases decoded

/-! ## What decoders take -/

/-- Whether the bytes that a decoder takes for a value are always some that are written for it. -/
def Takes (decoder : Decoder α) (written : α → List UInt8 → Prop) : Prop :=
  ∀ cursor value next, decoder cursor = .ok value next → ∃ taken,
    written value taken ∧ cursor.rest = taken ++ next.rest ∧ next.pos = cursor.pos + taken.length

variable {written : α → List UInt8 → Prop} {written' : β → List UInt8 → Prop}

theorem Takes.imp {weaker : α → List UInt8 → Prop} (takes : decoder.Takes written)
    (implies : ∀ value taken, written value taken → weaker value taken) :
    decoder.Takes weaker := by
  intro cursor value next success
  obtain ⟨taken, holds, read⟩ := takes cursor value next success
  exact ⟨taken, implies value taken holds, read⟩

theorem takes_pure (nothing : written value []) : (pure value : Decoder α).Takes written := by
  rintro cursor _ _ ⟨⟩
  exact ⟨[], nothing, rfl, rfl⟩

theorem takes_throw (fault : Fault) : (throw fault : Decoder α).Takes written := nofun

theorem Takes.bind {next : α → Decoder β} (first : decoder.Takes written)
    (second : ∀ value taken, written value taken →
      (next value).Takes fun final more => written' final (taken ++ more)) :
    (decoder >>= next).Takes written' := by
  intro cursor final last success
  obtain ⟨value, between, opened, done⟩ := ok_of_bind success
  obtain ⟨taken, front, rest, pos⟩ := first cursor value between opened
  obtain ⟨more, back, rest', pos'⟩ := second value taken front between final last done
  refine ⟨taken ++ more, back, ?_, ?_⟩
  · rw [rest, rest', List.append_assoc]
  · rw [pos', pos, List.length_append, Nat.add_assoc]

theorem Takes.map {f : α → β} (takes : decoder.Takes written)
    (mapped : ∀ value taken, written value taken → written' (f value) taken) :
    (decoder >>= fun value => pure (f value)).Takes written' :=
  takes.bind fun value taken holds => takes_pure (by simpa using mapped value taken holds)

theorem u1_takes : u1.Takes fun b taken => taken = [b] := by
  rintro ⟨pos, rest⟩ value next success
  match rest, success with
  | b :: rest, rfl => exact ⟨[b], rfl, rfl, rfl⟩

theorem u2_takes : u2.Takes fun n taken => taken = twoBytes n := by
  rintro ⟨pos, rest⟩ value next success
  match rest, success with
  | b₁ :: b₀ :: rest, rfl => exact ⟨[b₁, b₀], (two_join b₁ b₀).symm, rfl, rfl⟩

theorem bytes_takes (count : Nat) :
    (Decoder.bytes count).Takes fun part taken => taken = part ∧ part.length = count := by
  intro cursor part next success
  obtain ⟨exact, -⟩ := bytes_length success
  unfold Decoder.bytes at success
  split at success
  · cases success
    refine ⟨_, ⟨rfl, exact⟩, (List.take_append_drop count cursor.rest).symm, ?_⟩
    rw [exact]
  · cases success

theorem skip_takes (count : Nat) : (skip count).Takes fun _ taken => taken.length = count :=
  (bytes_takes count).map fun _ _ holds => holds.1 ▸ holds.2

/-! ## What decoders refuse -/

/-- Whether a decoder stops at some bytes with a fault, wherever they stand and whatever follows
them. -/
def Refuses (decoder : Decoder α) (bytes : List UInt8) (fault : Fault) : Prop :=
  ∀ pos trailing, ∃ left, decoder ⟨pos, bytes ++ trailing⟩ = .error fault left

section Refusing

variable {fault : Fault} {next : α → Decoder β}

theorem refuses_throw : (throw fault : Decoder α).Refuses bytes fault := fun _ _ => ⟨_, rfl⟩

theorem Refuses.bind (refuses : decoder.Refuses bytes fault) :
    (decoder >>= next).Refuses (bytes ++ more) fault := by
  intro pos trailing
  obtain ⟨left, failed⟩ := refuses pos (more ++ trailing)
  rw [List.append_assoc]
  exact ⟨left, bind_of_error failed⟩

theorem Refuses.map {f : α → β} (refuses : decoder.Refuses bytes fault) :
    (decoder >>= fun value => pure (f value)).Refuses bytes fault := by
  intro pos trailing
  obtain ⟨left, failed⟩ := refuses pos trailing
  exact ⟨left, bind_of_error failed⟩

theorem Refuses.after (first : decoder.Reads bytes value)
    (refuses : (next value).Refuses more fault) :
    (decoder >>= next).Refuses (bytes ++ more) fault := by
  intro pos trailing
  obtain ⟨left, failed⟩ := refuses (pos + bytes.length) trailing
  rw [List.append_assoc]
  exact ⟨left, (bind_of_ok (first pos _)).trans failed⟩

theorem Refuses.after_tag {next : UInt8 → Decoder β} {tag : UInt8}
    (refuses : (next tag).Refuses more fault) : (u1 >>= next).Refuses (tag :: more) fault :=
  refuses.after (u1_reads tag)

theorem Refuses.after_lookup {look : UInt16 → Except Fault α} {index : UInt16}
    (found : look index = .ok value) (refuses : (next value).Refuses more fault) :
    (u2 >>= fun index => (liftM (look index) : Decoder α) >>= next).Refuses
      (twoBytes index ++ more) fault :=
  (refuses.after (lift_reads found)).after (u2_reads index)

theorem Refuses.decode (refuses : decoder.Refuses bytes fault) :
    Decoder.decode decoder bytes = .error fault := by
  obtain ⟨left, failed⟩ := refuses 0 []
  rw [List.append_nil] at failed
  exact decode_of_error failed

variable {encode : β → List UInt8} {items : List β}

theorem many_refuses
    (each : ∀ item ∈ items, (∃ value, decoder.Reads (encode item) value) ∨
      decoder.Refuses (encode item) fault)
    (bad : ∃ item ∈ items, decoder.Refuses (encode item) fault) :
    (many items.length decoder).Refuses (items.flatMap encode) fault := by
  unfold many
  induction items with
  | nil =>
    obtain ⟨_, listed, -⟩ := bad
    exact absurd listed List.not_mem_nil
  | cons item items ih =>
    obtain ⟨first, others⟩ := List.forall_mem_cons.mp each
    rw [List.length_cons, List.replicate_succ, List.mapM_cons, List.flatMap_cons]
    rcases first with ⟨_, reads⟩ | refuses
    · obtain ⟨culprit, listed, refuses⟩ := bad
      rcases List.mem_cons.mp listed with rfl | later
      · exact refuses.bind
      · exact (ih others ⟨culprit, later, refuses⟩).map.after reads
    · exact refuses.bind

theorem counted_refuses (few : items.length < 2 ^ 16)
    (each : ∀ item ∈ items, (∃ value, decoder.Reads (encode item) value) ∨
      decoder.Refuses (encode item) fault)
    (bad : ∃ item ∈ items, decoder.Refuses (encode item) fault) :
    (counted decoder).Refuses (listed encode items) fault := by
  refine Refuses.after (u2_reads _) ?_
  rw [UInt16.toNat_ofNat_of_lt' few]
  exact many_refuses each bad

end Refusing

end Decoder

end Linkage
