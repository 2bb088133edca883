import Braids.FastNoise.Codec

/-!
# The Payload Format

The bytes of kernel payloads as a format: which byte strings are decoded to which payloads,
and that the scratch buffer through which a payload is written does not matter.

## Main results

* `encodeWith_eq`: the bytes that are written do not depend on the scratch buffers.
* `decodeFrom_eq_ok`: a payload is read precisely from the bytes written for it.
* `payload_format_exact`: decoding a byte string gives a payload if and only if the encoding
  of the payload is a prefix of it.
-/

namespace Braids

open Bytes

/-! ### Encoding through scratch buffers -/

/-- Planner-side scratch reused across compiles. -/
structure PlannerScratch where
  bytes : List UInt8 := []
  u32s : List UInt32 := []
  u64s : List UInt64 := []
  f32s : List F32 := []
  /-- `SpareVecs`. -/
  spareU32s : List (List UInt32) := []
  spareU64s : List (List UInt64) := []
  spareF32s : List (List F32) := []
  deriving DecidableEq, Repr

/-- Clear logical contents while keeping capacity. -/
def PlannerScratch.reset (scratch : PlannerScratch) : PlannerScratch where
  spareU32s := scratch.spareU32s.map fun _ => []
  spareU64s := scratch.spareU64s.map fun _ => []
  spareF32s := scratch.spareF32s.map fun _ => []

namespace KernelPayload

/-- `encode`, with the scratch buffers that it leaves. The writer appends to `bytes`. -/
def encodeWith (payload : KernelPayload) (scratch : PlannerScratch) :
    BraidResult KernelSpec × PlannerScratch :=
  let scratch := scratch.reset
  let bytes := scratch.bytes ++ payload.encodeInto
  (.ok {
    kindId := payload.kind.kind
    payload := bytes
    bindings := []
    dispatch := .wholeBatch }, { scratch with bytes := [] })

/-- **What is written** does not depend on the scratch buffers. -/
theorem encodeWith_eq (payload : KernelPayload) (scratch : PlannerScratch) :
    payload.encodeWith scratch = (.ok payload.encode, scratch.reset) := rfl

end KernelPayload

/-! ### Decoding -/

/-- The types that payloads have. -/
inductive PayloadType
  | warp (d : GraphDimension)
  | sample (d : GraphDimension)
  | combine
  deriving DecidableEq, Repr

/-- The type of a payload. -/
def KernelPayload.type : KernelPayload → PayloadType
  | .warp d _ => .warp d
  | .sample d _ => .sample d
  | .combine _ => .combine

/-- The lists of a payload are shorter than their encoded counts can tell. -/
def KernelPayload.CountsFit : KernelPayload → Prop
  | .combine payload => payload.inputs.length < 2 ^ 32 ∧ payload.params.length < 2 ^ 32
  | _ => True

namespace PayloadType

/-- `decode_from`. -/
def decodeFrom : PayloadType → Reader BraidError KernelPayload
  | .warp d => (WarpPayload.decodeFrom d).convert fun payload => .ok (.warp d payload)
  | .sample d => (SamplePayload.decodeFrom d).convert fun payload => .ok (.sample d payload)
  | .combine => CombinePayload.decodeFrom.convert fun payload => .ok (.combine payload)

/-- `decode`. -/
def decode (type : PayloadType) (bytes : List UInt8) : BraidResult KernelPayload :=
  decodePayload type.decodeFrom bytes

end PayloadType

/-- A combine payload is read precisely from the bytes written for it. -/
theorem combine_eq_ok {bytes rest : List UInt8} {payload : CombinePayload} :
    CombinePayload.decodeFrom.run bytes = .ok (payload, rest) ↔
      (payload.inputs.length < 2 ^ 32 ∧ payload.params.length < 2 ^ 32) ∧
        bytes = payload.encodeInto ++ rest := by
  have hcount : ∀ {n : ℕ} {count : UInt32}, n = count.toNat →
      n < 2 ^ 32 ∧ UInt32.ofNat n = count := by
    rintro n count rfl
    exact ⟨count.toNat_lt, UInt32.ofNat_toNat⟩
  simp only [CombinePayload.decodeFrom, (exact_tag _).bind_eq_ok, exact_u32.bind_eq_ok,
    exact_slot.bind_eq_ok, Reader.bind_eq_ok, exact_slot.many, exact_f32.many, Reader.run_pure,
    Except.ok.injEq, Prod.mk.injEq]
  constructor
  · rintro ⟨op, _, rfl, inputCount, _, rfl, inputs, _, ⟨hinputs, rfl⟩, output, _, rfl,
      paramCount, _, rfl, params, _, ⟨hparams, rfl⟩, rfl, rfl⟩
    obtain ⟨hin, hinCount⟩ := hcount hinputs
    obtain ⟨hpar, hparCount⟩ := hcount hparams
    refine ⟨⟨hin, hpar⟩, ?_⟩
    simp only [CombinePayload.encodeInto, hinCount, hparCount, List.append_assoc]
  · rintro ⟨⟨hin, hpar⟩, rfl⟩
    obtain ⟨op, inputs, output, params⟩ := payload
    have hinCount : (UInt32.ofNat inputs.length).toNat = inputs.length :=
      UInt32.toNat_ofNat_of_lt' hin
    have hparCount : (UInt32.ofNat params.length).toNat = params.length :=
      UInt32.toNat_ofNat_of_lt' hpar
    simp only [CombinePayload.encodeInto, List.append_assoc]
    exact ⟨_, _, rfl, _, _, rfl, _, _, ⟨hinCount.symm, rfl⟩, _, _, rfl, _, _, rfl, _, _,
      ⟨hparCount.symm, rfl⟩, rfl, rfl⟩

/-- **A payload is read precisely** from the bytes written for it. -/
theorem PayloadType.decodeFrom_eq_ok (type : PayloadType) {bytes rest : List UInt8}
    {payload : KernelPayload} :
    type.decodeFrom.run bytes = .ok (payload, rest) ↔
      (payload.type = type ∧ payload.CountsFit) ∧ bytes = payload.encodeInto ++ rest := by
  cases type with
  | warp d =>
      rw [decodeFrom, Reader.convert_eq_ok]
      constructor
      · rintro ⟨warp, hwarp, h⟩
        obtain rfl := Except.ok.inj h
        exact ⟨⟨rfl, trivial⟩, (exact_warp d _ _ _).mp hwarp⟩
      · rintro ⟨⟨htype, -⟩, rfl⟩
        cases payload with
        | warp d' warp =>
            obtain rfl := PayloadType.warp.inj htype
            exact ⟨warp, (exact_warp d' _ _ _).mpr rfl, rfl⟩
        | sample d' sample => cases htype
        | combine combine => cases htype
  | sample d =>
      rw [decodeFrom, Reader.convert_eq_ok]
      constructor
      · rintro ⟨sample, hsample, h⟩
        obtain rfl := Except.ok.inj h
        exact ⟨⟨rfl, trivial⟩, (exact_sample d _ _ _).mp hsample⟩
      · rintro ⟨⟨htype, -⟩, rfl⟩
        cases payload with
        | sample d' sample =>
            obtain rfl := PayloadType.sample.inj htype
            exact ⟨sample, (exact_sample d' _ _ _).mpr rfl, rfl⟩
        | warp d' warp => cases htype
        | combine combine => cases htype
  | combine =>
      rw [decodeFrom, Reader.convert_eq_ok]
      constructor
      · rintro ⟨combine, hcombine, h⟩
        obtain rfl := Except.ok.inj h
        obtain ⟨hfit, hbytes⟩ := combine_eq_ok.mp hcombine
        exact ⟨⟨rfl, hfit⟩, hbytes⟩
      · rintro ⟨⟨htype, hfit⟩, rfl⟩
        cases payload with
        | combine combine => exact ⟨combine, combine_eq_ok.mpr ⟨hfit, rfl⟩, rfl⟩
        | warp d' warp => cases htype
        | sample d' sample => cases htype

/-- **Decoding** gives a payload when its encoding is a prefix of the bytes. -/
theorem PayloadType.decode_eq_ok (type : PayloadType) {bytes : List UInt8}
    {payload : KernelPayload} :
    type.decode bytes = .ok payload ↔
      (payload.type = type ∧ payload.CountsFit) ∧ payload.encodeInto <+: bytes := by
  have hdecode : type.decode bytes = .ok payload ↔
      ∃ rest, type.decodeFrom.run bytes = .ok (payload, rest) := by
    rw [decode, decodePayload]
    cases type.decodeFrom.run bytes with
    | error e => simp [Except.map]
    | ok x =>
        obtain ⟨payload', rest⟩ := x
        simp [Except.map]
  rw [hdecode]
  constructor
  · rintro ⟨rest, hrest⟩
    obtain ⟨htype, rfl⟩ := type.decodeFrom_eq_ok.mp hrest
    exact ⟨htype, List.prefix_append _ _⟩
  · rintro ⟨htype, rest, rfl⟩
    exact ⟨rest, type.decodeFrom_eq_ok.mpr ⟨htype, rfl⟩⟩

/-! ### Tags -/

/-- A tag of a format: where it is, and the codec that it is from. -/
structure TagField where
  offset : ℕ
  Known : UInt32 → Prop

/-- The tags of a codec. -/
def EnumCodec.Known {T : Type} [DecidableEq T] (codec : EnumCodec T) (tag : UInt32) : Prop :=
  ∃ value, tag = codec.encode value

/-- The tags of a noise generator that starts at `start`. -/
def noiseTags (start : ℕ) : List TagField :=
  [⟨start + 8, noiseTypeCodec.Known⟩, ⟨start + 12, rotationTypeCodec.Known⟩,
    ⟨start + 16, fractalTypeCodec.Known⟩, ⟨start + 40, cellularDistanceFunctionCodec.Known⟩,
    ⟨start + 44, cellularReturnTypeCodec.Known⟩, ⟨start + 52, domainWarpTypeCodec.Known⟩]

/-- The tags of a payload. -/
def PayloadType.tags : PayloadType → List TagField
  | .warp d => noiseTags (2 * d.size + 2 * d.size)
  | .sample d => noiseTags (2 * d.size + 2)
  | .combine => [⟨0, combineOpCodec.Known⟩]

/-- The bytes at the place of a tag are a tag of its codec. -/
def TagField.HoldsIn (field : TagField) (bytes : List UInt8) : Prop :=
  ∃ tag rest, bytes.drop field.offset = PayloadWriter.u32 tag ++ rest ∧ field.Known tag

@[simp] theorem length_u32 (value : UInt32) : (PayloadWriter.u32 value).length = 4 :=
  length_toLe 4 _

@[simp] theorem length_slot (value : BufferSlot) : (PayloadWriter.slot value).length = 2 :=
  length_toLe 2 _

@[simp] theorem length_positionSlots {d : GraphDimension} (slots : PositionSlots d) :
    (PayloadWriter.positionSlots slots).length = 2 * d.size := by
  rw [PayloadWriter.positionSlots, List.length_flatMap]
  simp [slots.length_coords, Nat.mul_comm]

namespace TagField.HoldsIn

/-- A tag at the front. -/
theorem here {T : Type} [DecidableEq T] (codec : EnumCodec T) (value : T) (rest : List UInt8) :
    TagField.HoldsIn ⟨0, codec.Known⟩ (PayloadWriter.u32 (codec.encode value) ++ rest) :=
  ⟨codec.encode value, rest, rfl, value, rfl⟩

/-- A tag behind some bytes. -/
theorem skip {front back : List UInt8} {n k : ℕ} {Known : UInt32 → Prop}
    (hfront : front.length = n) (h : TagField.HoldsIn ⟨k, Known⟩ back) :
    TagField.HoldsIn ⟨k + n, Known⟩ (front ++ back) := by
  obtain ⟨tag, rest, hdrop, hknown⟩ := h
  refine ⟨tag, rest, ?_, hknown⟩
  change (front ++ back).drop (k + n) = _
  rw [Nat.add_comm, ← List.drop_drop, List.drop_left' hfront]
  exact hdrop

end TagField.HoldsIn

/-- The tags of an encoded noise generator. -/
theorem noiseTags_holdsIn {front : List UInt8} {start : ℕ} (h : front.length = start)
    (noise : FastNoiseLite) (rest : List UInt8) :
    ∀ field ∈ noiseTags start, field.HoldsIn (front ++ (PayloadWriter.noise noise ++ rest)) := by
  have hword : ∀ {k : ℕ} {Known : UInt32 → Prop} {value : UInt32} {back : List UInt8},
      TagField.HoldsIn ⟨k, Known⟩ back →
        TagField.HoldsIn ⟨k + 4, Known⟩ (PayloadWriter.u32 value ++ back) :=
    fun hback => .skip (length_u32 _) hback
  intro field hfield
  simp only [noiseTags, List.mem_cons, List.not_mem_nil, or_false] at hfield
  simp only [PayloadWriter.noise, List.append_assoc]
  rcases hfield with rfl | rfl | rfl | rfl | rfl | rfl <;> rw [Nat.add_comm] <;>
    refine .skip h ?_
  · exact hword (hword (.here noiseTypeCodec _ _))
  · exact hword (hword (hword (.here rotationTypeCodec _ _)))
  · exact hword (hword (hword (hword (.here fractalTypeCodec _ _))))
  · iterate 10 refine hword ?_
    exact .here cellularDistanceFunctionCodec _ _
  · iterate 11 refine hword ?_
    exact .here cellularReturnTypeCodec _ _
  · iterate 13 refine hword ?_
    exact .here domainWarpTypeCodec _ _

/-- **The tags of an encoded payload** are tags of their codecs. -/
theorem KernelPayload.tags_holdIn (payload : KernelPayload) (rest : List UInt8) :
    ∀ field ∈ payload.type.tags, field.HoldsIn (payload.encodeInto ++ rest) := by
  cases payload with
  | warp d payload =>
      have hfront : (PayloadWriter.positionSlots payload.source ++
          PayloadWriter.positionSlots payload.output).length = 2 * d.size + 2 * d.size := by simp
      simpa [KernelPayload.encodeInto, WarpPayload.encodeInto, List.append_assoc,
        KernelPayload.type, PayloadType.tags] using
        noiseTags_holdsIn hfront payload.noise rest
  | sample d payload =>
      have hfront : (PayloadWriter.positionSlots payload.source ++
          PayloadWriter.slot payload.output).length = 2 * d.size + 2 := by simp
      simpa [KernelPayload.encodeInto, SamplePayload.encodeInto, List.append_assoc,
        KernelPayload.type, PayloadType.tags] using
        noiseTags_holdsIn hfront payload.noise rest
  | combine payload =>
      intro field hfield
      obtain rfl := List.mem_singleton.mp hfield
      simp only [KernelPayload.encodeInto, CombinePayload.encodeInto, List.append_assoc]
      exact .here combineOpCodec payload.op _

/-- Where the tag of some bytes is unknown, they are not decoded. -/
theorem PayloadType.unknown_tag (type : PayloadType) {field : TagField} (h : field ∈ type.tags)
    {bytes rest : List UInt8} {tag : UInt32}
    (htag : bytes.drop field.offset = PayloadWriter.u32 tag ++ rest)
    (hunknown : ¬ field.Known tag) :
    ∃ e, type.decode bytes = .error e := by
  cases hdecode : type.decode bytes with
  | error e => exact ⟨e, rfl⟩
  | ok payload =>
      obtain ⟨⟨rfl, -⟩, more, rfl⟩ := type.decode_eq_ok.mp hdecode
      obtain ⟨tag', rest', hdrop, hknown⟩ := payload.tags_holdIn more field h
      have heq := htag.symm.trans hdrop
      have hsame := List.append_inj_left heq (by simp)
      have hread := (exact_u32 _ _ _).mpr (List.append_nil (PayloadWriter.u32 tag)).symm
      rw [hsame] at hread
      have hread' := (exact_u32 _ _ _).mpr (List.append_nil (PayloadWriter.u32 tag')).symm
      obtain rfl : tag = tag' := by
        have hok := Except.ok.inj (hread.symm.trans hread')
        exact (Prod.mk.inj hok).1
      exact absurd hknown hunknown

/-- A strict prefix of an encoding is not decoded: what it is decoded to would be decoded
from the whole encoding as well. -/
theorem PayloadType.truncated (type : PayloadType) {payload : KernelPayload}
    (h : payload.type = type ∧ payload.CountsFit) {bytes : List UInt8}
    (hpre : bytes <+: payload.encodeInto) (hne : bytes ≠ payload.encodeInto) :
    ∃ e, type.decode bytes = .error e := by
  cases hdecode : type.decode bytes with
  | error e => exact ⟨e, rfl⟩
  | ok payload' =>
      obtain ⟨htype', hpre'⟩ := type.decode_eq_ok.mp hdecode
      have hwhole : type.decode payload.encodeInto = .ok payload :=
        type.decode_eq_ok.mpr ⟨h, List.prefix_refl _⟩
      have hwhole' : type.decode payload.encodeInto = .ok payload' :=
        type.decode_eq_ok.mpr ⟨htype', hpre'.trans hpre⟩
      obtain rfl := Except.ok.inj (hwhole.symm.trans hwhole')
      exact absurd (hpre.eq_of_length (Nat.le_antisymm hpre.length_le hpre'.length_le)) hne

/-! ### The format -/

/-- The bytes that `encode` writes, whatever the scratch buffers hold. -/
def KernelPayload.Writes (payload : KernelPayload) (scratch : PlannerScratch)
    (bytes : List UInt8) : Prop :=
  ∃ spec, (payload.encodeWith scratch).1 = .ok spec ∧ spec.payload = bytes

/-- **The format of payloads is exact.** Decoding gives a payload if and only if its
encoding is a prefix of the bytes. So what was encoded is decoded again, what was decoded is
encoded to the bytes that were read, and truncated encodings and unknown tags are rejected. -/
theorem payload_format_exact (type : PayloadType) (scratch : PlannerScratch) :
    (∀ payload : KernelPayload, payload.type = type → payload.CountsFit →
      ∃ encoded, payload.Writes scratch encoded ∧
        (∀ bytes, type.decode bytes = .ok payload ↔ encoded <+: bytes) ∧
        type.decode encoded = .ok payload ∧
        ∀ bytes, bytes <+: encoded → bytes ≠ encoded → ∃ e, type.decode bytes = .error e) ∧
      (∀ bytes payload rest, type.decodeFrom.run bytes = .ok (payload, rest) →
        payload.type = type ∧ payload.CountsFit ∧
          ∃ encoded, payload.Writes scratch encoded ∧ bytes = encoded ++ rest) ∧
      ∀ field ∈ type.tags, ∀ bytes tag rest,
        bytes.drop field.offset = PayloadWriter.u32 tag ++ rest → ¬ field.Known tag →
          ∃ e, type.decode bytes = .error e := by
  refine ⟨fun payload htype hfit => ?_, fun bytes payload rest hread => ?_,
    fun field hfield bytes tag rest htag hunknown => type.unknown_tag hfield htag hunknown⟩
  · refine ⟨payload.encodeInto, ⟨_, rfl, rfl⟩, fun bytes => ?_, ?_, fun bytes hpre hne => ?_⟩
    · rw [type.decode_eq_ok]
      exact ⟨fun h => h.2, fun h => ⟨⟨htype, hfit⟩, h⟩⟩
    · exact type.decode_eq_ok.mpr ⟨⟨htype, hfit⟩, List.prefix_refl _⟩
    · exact type.truncated ⟨htype, hfit⟩ hpre hne
  · obtain ⟨⟨htype, hfit⟩, rfl⟩ := type.decodeFrom_eq_ok.mp hread
    exact ⟨htype, hfit, _, ⟨_, rfl, rfl⟩, rfl⟩

/-- The sum of two slots, encoded and decoded again. -/
theorem payload_format_exact_sum :
    (PayloadType.combine).decode (KernelPayload.encodeInto
        (.combine ⟨.add, [⟨32⟩, ⟨33⟩], ⟨34⟩, []⟩)) =
      .ok (.combine ⟨.add, [⟨32⟩, ⟨33⟩], ⟨34⟩, []⟩) := by
  obtain ⟨encoded, ⟨spec, hspec, rfl⟩, -, hdecode, -⟩ :=
    (payload_format_exact .combine { bytes := [7] }).1
      (.combine ⟨.add, [⟨32⟩, ⟨33⟩], ⟨34⟩, []⟩) rfl ⟨by decide, by decide⟩
  obtain rfl := Except.ok.inj hspec
  exact hdecode

end Braids
