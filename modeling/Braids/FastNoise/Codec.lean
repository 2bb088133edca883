import Braids.FastNoise.Model
import Braids.Lib.Bytes

/-!
# Kernel Payloads

How the FastNoise compiler hands kernels to the backend: payloads that are written to bytes
and read back (`PayloadWriter` and `PayloadReader` of `runtime.rs`), and the factory that
prepares a kernel from them.

The writers count inputs and parameters with `as u32`, so longer lists do not survive:
`CombinePayload.decode_encode` says what is read back.

## Main results

* `exact_noise`, `exact_warp`, `exact_sample`: these payloads are read precisely from the
  bytes that are written for them.
* `CombinePayload.decode_encode`: of a payload with fewer than `2 ^ 32` inputs, all is read
  back but as many parameters as their counter wraps around.
-/

namespace Braids

open Bytes

/-! ### Kernels -/

inductive FastNoiseKernel
  | initGrid2d
  | initGrid3d
  | warp2d
  | warp3d
  | sample2d
  | sample3d
  | combine
  deriving DecidableEq, Repr

/-- `kind`. -/
def FastNoiseKernel.kind : FastNoiseKernel → KernelKind
  | .initGrid2d => ⟨0xF001⟩
  | .initGrid3d => ⟨0xF002⟩
  | .warp2d => ⟨0xF100⟩
  | .warp3d => ⟨0xF101⟩
  | .sample2d => ⟨0xF200⟩
  | .sample3d => ⟨0xF201⟩
  | .combine => ⟨0xF300⟩

/-- `from_kind`. -/
def FastNoiseKernel.fromKind (value : KernelKind) : Option FastNoiseKernel :=
  match value.val with
  | 0xF001 => some .initGrid2d
  | 0xF002 => some .initGrid3d
  | 0xF100 => some .warp2d
  | 0xF101 => some .warp3d
  | 0xF200 => some .sample2d
  | 0xF201 => some .sample3d
  | 0xF300 => some .combine
  | _ => none

/-- The kernel of a kind. -/
theorem FastNoiseKernel.fromKind_kind (kernel : FastNoiseKernel) :
    fromKind kernel.kind = some kernel := by
  cases kernel <;> rfl

/-- The slots of the coordinates of a position. -/
structure PositionSlots (d : GraphDimension) where
  coords : List BufferSlot
  length_coords : coords.length = d.size
  deriving DecidableEq

structure WarpPayload (d : GraphDimension) where
  source : PositionSlots d
  output : PositionSlots d
  noise : FastNoiseLite
  deriving DecidableEq

structure SamplePayload (d : GraphDimension) where
  source : PositionSlots d
  output : BufferSlot
  noise : FastNoiseLite
  deriving DecidableEq

structure CombinePayload where
  op : CombineOp
  inputs : List BufferSlot
  output : BufferSlot
  params : List F32
  deriving DecidableEq, Repr

/-! ### Tags -/

/-- An enumeration whose variants are written as tags (`enum_codec`). The tag of a variant is
its position in `variants`. -/
structure EnumCodec (T : Type) where
  label : String
  variants : List T
  nodup : variants.Nodup := by decide
  complete : ∀ a, a ∈ variants := by intro a; cases a <;> decide
  small : variants.length < 2 ^ 32 := by decide

namespace EnumCodec

variable {T : Type} [DecidableEq T]

/-- The tag of a variant. -/
def encode (codec : EnumCodec T) (value : T) : UInt32 := .ofNat (codec.variants.idxOf value)

/-- The variant of a tag. -/
def decode (codec : EnumCodec T) (value : UInt32) : BraidResult T :=
  match codec.variants[value.toNat]? with
  | some variant => .ok variant
  | none => .error (.invalidSpec s!"unknown {codec.label} {value}")

/-- A tag is decoded to the variant that it encodes, and all others are rejected. -/
theorem decode_eq_ok (codec : EnumCodec T) (tag : UInt32) (value : T) :
    codec.decode tag = .ok value ↔ tag = codec.encode value := by
  have hlt := List.idxOf_lt_length_of_mem (codec.complete value)
  have hnat : (codec.encode value).toNat = codec.variants.idxOf value :=
    UInt32.toNat_ofNat_of_lt' (Nat.lt_trans hlt codec.small)
  rw [decode]
  constructor
  · intro h
    split at h
    · next variant hvariant =>
        obtain rfl := Except.ok.inj h
        obtain ⟨hi, rfl⟩ := List.getElem?_eq_some_iff.mp hvariant
        rw [← UInt32.toNat_inj, hnat, codec.nodup.idxOf_getElem]
    · simp at h
  · rintro rfl
    rw [hnat, List.getElem?_eq_getElem hlt, List.getElem_idxOf hlt]

end EnumCodec

/-- `encode_noise_type` and `decode_noise_type`. -/
def noiseTypeCodec : EnumCodec NoiseType where
  label := "noise type tag"
  variants := [.openSimplex2, .openSimplex2S, .cellular, .perlin, .valueCubic, .value]

/-- `encode_rotation_type` and `decode_rotation_type`. -/
def rotationTypeCodec : EnumCodec RotationType3D where
  label := "rotation type tag"
  variants := [.none, .improveXYPlanes, .improveXZPlanes]

/-- `encode_fractal_type` and `decode_fractal_type`. -/
def fractalTypeCodec : EnumCodec FractalType where
  label := "fractal type tag"
  variants := [.none, .fBm, .ridged, .pingPong, .domainWarpProgressive, .domainWarpIndependent]

/-- `encode_cellular_distance_function` and `decode_cellular_distance_function`. -/
def cellularDistanceFunctionCodec : EnumCodec CellularDistanceFunction where
  label := "cellular distance tag"
  variants := [.euclidean, .euclideanSq, .manhattan, .hybrid]

/-- `encode_cellular_return_type` and `decode_cellular_return_type`. -/
def cellularReturnTypeCodec : EnumCodec CellularReturnType where
  label := "cellular return tag"
  variants := [.cellValue, .distance, .distance2, .distance2Add, .distance2Sub, .distance2Mul,
    .distance2Div]

/-- `encode_domain_warp_type` and `decode_domain_warp_type`. -/
def domainWarpTypeCodec : EnumCodec DomainWarpType where
  label := "domain warp tag"
  variants := [.openSimplex2, .openSimplex2Reduced, .basicGrid]

/-- `encode_combine_op` and `decode_combine_op`. -/
def combineOpCodec : EnumCodec CombineOp where
  label := "combine op tag"
  variants := [.add, .sub, .mul, .min, .max, .clamp, .remap, .yGradient]

/-! ### Writers -/

namespace PayloadWriter

/-- `u16`. -/
def u16 (value : UInt16) : List UInt8 := toLe 2 value.toNat

/-- `slot`. -/
def slot (value : BufferSlot) : List UInt8 := u16 value.val

/-- `u32`. -/
def u32 (value : UInt32) : List UInt8 := toLe 4 value.toNat

/-- `i32`. -/
def i32 (value : Int32) : List UInt8 := u32 value.toUInt32

/-- `f32`. -/
def f32 (value : F32) : List UInt8 := u32 value.bits

/-- `noise`. -/
def noise (noise : FastNoiseLite) : List UInt8 :=
  i32 noise.seed ++
  (f32 noise.frequency ++
  (u32 (noiseTypeCodec.encode noise.noiseType) ++
  (u32 (rotationTypeCodec.encode noise.rotationType3d) ++
  (u32 (fractalTypeCodec.encode noise.fractalType) ++
  (i32 noise.octaves ++
  (f32 noise.lacunarity ++
  (f32 noise.gain ++
  (f32 noise.weightedStrength ++
  (f32 noise.pingPongStrength ++
  (u32 (cellularDistanceFunctionCodec.encode noise.cellularDistanceFunction) ++
  (u32 (cellularReturnTypeCodec.encode noise.cellularReturnType) ++
  (f32 noise.cellularJitterModifier ++
  (u32 (domainWarpTypeCodec.encode noise.domainWarpType) ++
  f32 noise.domainWarpAmp)))))))))))))

/-- The loop over the coordinates of a position. -/
def positionSlots {d : GraphDimension} (slots : PositionSlots d) : List UInt8 :=
  slots.coords.flatMap slot

end PayloadWriter

open PayloadWriter in
/-- `encode_into` of `WarpPayload`. -/
def WarpPayload.encodeInto {d : GraphDimension} (payload : WarpPayload d) : List UInt8 :=
  positionSlots payload.source ++
    (positionSlots payload.output ++ PayloadWriter.noise payload.noise)

open PayloadWriter in
/-- `encode_into` of `SamplePayload`. -/
def SamplePayload.encodeInto {d : GraphDimension} (payload : SamplePayload d) : List UInt8 :=
  positionSlots payload.source ++ (slot payload.output ++ PayloadWriter.noise payload.noise)

open PayloadWriter in
/-- `encode_into` of `CombinePayload`. The counts are written `as u32`. -/
def CombinePayload.encodeInto (payload : CombinePayload) : List UInt8 :=
  u32 (combineOpCodec.encode payload.op) ++
  (u32 (.ofNat payload.inputs.length) ++
  (payload.inputs.flatMap slot ++
  (slot payload.output ++
  (u32 (.ofNat payload.params.length) ++
  payload.params.flatMap f32))))

/-- The types that implement the trait `KernelPayload`. -/
inductive KernelPayload
  | warp (d : GraphDimension) (payload : WarpPayload d)
  | sample (d : GraphDimension) (payload : SamplePayload d)
  | combine (payload : CombinePayload)
  deriving DecidableEq

namespace KernelPayload

/-- `kind`. -/
def kind : KernelPayload → FastNoiseKernel
  | .warp .d2 _ => .warp2d
  | .warp .d3 _ => .warp3d
  | .sample .d2 _ => .sample2d
  | .sample .d3 _ => .sample3d
  | .combine _ => .combine

/-- `encode_into`. -/
def encodeInto : KernelPayload → List UInt8
  | .warp _ payload => payload.encodeInto
  | .sample _ payload => payload.encodeInto
  | .combine payload => payload.encodeInto

/-- `encode`. -/
def encode (payload : KernelPayload) : KernelSpec where
  kindId := payload.kind.kind
  payload := payload.encodeInto
  bindings := []
  dispatch := .wholeBatch

end KernelPayload

/-! ### Readers -/

namespace PayloadReader

/-- `read_exact`. -/
def readExact (n : ℕ) : Reader BraidError (List UInt8) :=
  .exactly (.invalidSpec "kernel payload truncated") n

/-- `u16`. -/
def u16 : Reader BraidError UInt16 := (readExact 2).convert fun x => .ok (.ofNat (ofLe x))

/-- `slot`. -/
def slot : Reader BraidError BufferSlot := u16.convert fun x => .ok ⟨x⟩

/-- `u32`. -/
def u32 : Reader BraidError UInt32 := (readExact 4).convert fun x => .ok (.ofNat (ofLe x))

/-- `i32`. -/
def i32 : Reader BraidError Int32 := u32.convert fun x => .ok x.toInt32

/-- `f32`. -/
def f32 : Reader BraidError F32 := u32.convert fun x => .ok ⟨x⟩

/-- A tag, decoded. -/
def tag {T : Type} [DecidableEq T] (codec : EnumCodec T) : Reader BraidError T :=
  u32.convert codec.decode

/-- `noise`. -/
def noise : Reader BraidError FastNoiseLite := do
  let seed ← i32
  let frequency ← f32
  let noiseType ← tag noiseTypeCodec
  let rotationType3d ← tag rotationTypeCodec
  let fractalType ← tag fractalTypeCodec
  let octaves ← i32
  let lacunarity ← f32
  let gain ← f32
  let weightedStrength ← f32
  let pingPongStrength ← f32
  let cellularDistanceFunction ← tag cellularDistanceFunctionCodec
  let cellularReturnType ← tag cellularReturnTypeCodec
  let cellularJitterModifier ← f32
  let domainWarpType ← tag domainWarpTypeCodec
  let domainWarpAmp ← f32
  return {
    seed, frequency, noiseType, rotationType3d, fractalType, octaves, lacunarity, gain,
    weightedStrength, pingPongStrength, cellularDistanceFunction, cellularReturnType,
    cellularJitterModifier, domainWarpType, domainWarpAmp }

/-- `read_position_slots`. The array that is read has the right length. -/
def positionSlots (d : GraphDimension) : Reader BraidError (PositionSlots d) :=
  (slot.many d.size).convert fun coords =>
    if h : coords.length = d.size then .ok ⟨coords, h⟩
    else .error (.invalidSpec "kernel payload truncated")

end PayloadReader

open PayloadReader in
/-- `decode_from` of `WarpPayload`. -/
def WarpPayload.decodeFrom (d : GraphDimension) : Reader BraidError (WarpPayload d) := do
  let source ← positionSlots d
  let output ← positionSlots d
  let noise ← PayloadReader.noise
  return { source, output, noise }

open PayloadReader in
/-- `decode_from` of `SamplePayload`. -/
def SamplePayload.decodeFrom (d : GraphDimension) : Reader BraidError (SamplePayload d) := do
  let source ← positionSlots d
  let output ← slot
  let noise ← PayloadReader.noise
  return { source, output, noise }

open PayloadReader in
/-- `decode_from` of `CombinePayload`. -/
def CombinePayload.decodeFrom : Reader BraidError CombinePayload := do
  let op ← tag combineOpCodec
  let inputCount ← u32
  let inputs ← slot.many inputCount.toNat
  let output ← slot
  let paramCount ← u32
  let params ← f32.many paramCount.toNat
  return { op, inputs, output, params }

/-- `decode`, which ignores the bytes that follow the payload. -/
def decodePayload {T : Type} (decodeFrom : Reader BraidError T) (bytes : List UInt8) :
    BraidResult T :=
  (decodeFrom.run bytes).map (·.1)

/-! ### Exactness -/

theorem exact_u16 : Exact PayloadReader.u16 PayloadWriter.u16 :=
  exact_le (fun a => a.toNat_lt) (fun a => by simp)
    fun n hn => UInt16.toNat_ofNat_of_lt' hn

theorem exact_u32 : Exact PayloadReader.u32 PayloadWriter.u32 :=
  exact_le (fun a => a.toNat_lt) (fun a => by simp)
    fun n hn => UInt32.toNat_ofNat_of_lt' hn

theorem exact_slot : Exact PayloadReader.slot PayloadWriter.slot :=
  exact_u16.convert fun a b => by
    constructor
    · intro h
      exact congrArg BufferSlot.val (Except.ok.inj h)
    · rintro rfl
      rfl

theorem exact_i32 : Exact PayloadReader.i32 PayloadWriter.i32 :=
  exact_u32.convert fun a b => by
    constructor
    · intro h
      obtain rfl := Except.ok.inj h
      simp
    · rintro rfl
      simp

theorem exact_f32 : Exact PayloadReader.f32 PayloadWriter.f32 :=
  exact_u32.convert fun a b => by
    constructor
    · intro h
      exact congrArg F32.bits (Except.ok.inj h)
    · rintro rfl
      rfl

theorem exact_tag {T : Type} [DecidableEq T] (codec : EnumCodec T) :
    Exact (PayloadReader.tag codec) (fun value => PayloadWriter.u32 (codec.encode value)) :=
  exact_u32.convert codec.decode_eq_ok

/-- A noise generator is read precisely from its bytes. -/
theorem exact_noise : Exact PayloadReader.noise PayloadWriter.noise := by
  intro bytes noise rest
  simp only [PayloadReader.noise, exact_i32.bind_eq_ok, exact_f32.bind_eq_ok,
    (exact_tag _).bind_eq_ok, Reader.run_pure, Except.ok.injEq, Prod.mk.injEq]
  constructor
  · rintro ⟨seed, _, rfl, frequency, _, rfl, noiseType, _, rfl, rotation, _, rfl, fractal, _,
      rfl, octaves, _, rfl, lacunarity, _, rfl, gain, _, rfl, weighted, _, rfl, pingPong, _, rfl,
      distance, _, rfl, returnType, _, rfl, jitter, _, rfl, warpType, _, rfl, amp, _, rfl, rfl,
      rfl⟩
    simp only [PayloadWriter.noise, List.append_assoc]
  · rintro rfl
    simp only [PayloadWriter.noise, List.append_assoc]
    exact ⟨_, _, rfl, _, _, rfl, _, _, rfl, _, _, rfl, _, _, rfl, _, _, rfl, _, _, rfl, _, _, rfl,
      _, _, rfl, _, _, rfl, _, _, rfl, _, _, rfl, _, _, rfl, _, _, rfl, _, _, rfl, rfl, rfl⟩

/-- A position is read precisely from its bytes. -/
theorem exact_positionSlots (d : GraphDimension) :
    Exact (PayloadReader.positionSlots d) PayloadWriter.positionSlots := by
  intro bytes slots rest
  rw [PayloadReader.positionSlots, Reader.convert_eq_ok]
  constructor
  · rintro ⟨coords, hcoords, h⟩
    obtain ⟨hlen, rfl⟩ := exact_slot.many.mp hcoords
    rw [dif_pos hlen] at h
    obtain rfl := Except.ok.inj h
    rfl
  · rintro rfl
    exact ⟨slots.coords, exact_slot.many.mpr ⟨slots.length_coords, rfl⟩,
      dif_pos slots.length_coords⟩

/-- A warp payload is read precisely from its bytes. -/
theorem exact_warp (d : GraphDimension) :
    Exact (WarpPayload.decodeFrom d) WarpPayload.encodeInto := by
  intro bytes payload rest
  simp only [WarpPayload.decodeFrom, (exact_positionSlots d).bind_eq_ok, exact_noise.bind_eq_ok,
    Reader.run_pure, Except.ok.injEq, Prod.mk.injEq]
  constructor
  · rintro ⟨source, _, rfl, output, _, rfl, noise, _, rfl, rfl, rfl⟩
    simp only [WarpPayload.encodeInto, List.append_assoc]
  · rintro rfl
    simp only [WarpPayload.encodeInto, List.append_assoc]
    exact ⟨_, _, rfl, _, _, rfl, _, _, rfl, rfl, rfl⟩

/-- A sample payload is read precisely from its bytes. -/
theorem exact_sample (d : GraphDimension) :
    Exact (SamplePayload.decodeFrom d) SamplePayload.encodeInto := by
  intro bytes payload rest
  simp only [SamplePayload.decodeFrom, (exact_positionSlots d).bind_eq_ok,
    exact_slot.bind_eq_ok, exact_noise.bind_eq_ok, Reader.run_pure, Except.ok.injEq,
    Prod.mk.injEq]
  constructor
  · rintro ⟨source, _, rfl, output, _, rfl, noise, _, rfl, rfl, rfl⟩
    simp only [SamplePayload.encodeInto, List.append_assoc]
  · rintro rfl
    simp only [SamplePayload.encodeInto, List.append_assoc]
    exact ⟨_, _, rfl, _, _, rfl, _, _, rfl, rfl, rfl⟩

/-- Decoding what an exact reader's writer wrote. -/
theorem decodePayload_of_exact {T : Type} {r : Reader BraidError T} {w : T → List UInt8}
    (h : Exact r w) (payload : T) : decodePayload r (w payload) = .ok payload := by
  have hrun := h.run payload []
  rw [List.append_nil] at hrun
  rw [decodePayload, hrun]
  rfl

/-- The parameters that survive the encoding of a combine payload: their count is written
`as u32`. -/
def wireParams (params : List F32) : List F32 := params.take (params.length % 2 ^ 32)

/-- **What is read back of a combine payload** with fewer than `2 ^ 32` inputs. -/
theorem CombinePayload.decode_encode (payload : CombinePayload)
    (h : payload.inputs.length < 2 ^ 32) :
    decodePayload decodeFrom payload.encodeInto =
      .ok { payload with params := wireParams payload.params } := by
  have hsplit : payload.params.flatMap PayloadWriter.f32 =
      (wireParams payload.params).flatMap PayloadWriter.f32 ++
        (payload.params.drop (payload.params.length % 2 ^ 32)).flatMap PayloadWriter.f32 := by
    rw [wireParams, ← List.flatMap_append, List.take_append_drop]
  have hinputs : (UInt32.ofNat payload.inputs.length).toNat = payload.inputs.length :=
    UInt32.toNat_ofNat_of_lt' h
  have hparams : (wireParams payload.params).length =
      (UInt32.ofNat payload.params.length).toNat := by
    rw [wireParams, UInt32.toNat_ofNat', List.length_take_of_le (Nat.mod_le _ _)]
  have hrun : decodeFrom.run payload.encodeInto =
      .ok ({ payload with params := wireParams payload.params },
        (payload.params.drop (payload.params.length % 2 ^ 32)).flatMap PayloadWriter.f32) := by
    simp only [decodeFrom, encodeInto, (exact_tag _).bind_eq_ok, exact_u32.bind_eq_ok,
      exact_slot.bind_eq_ok, Reader.bind_eq_ok, exact_slot.many, exact_f32.many]
    rw [hsplit]
    exact ⟨_, _, rfl, _, _, rfl, _, _, ⟨hinputs.symm, rfl⟩, _, _, rfl, _, _, rfl, _, _,
      ⟨hparams, rfl⟩, rfl⟩
  rw [decodePayload, hrun]
  rfl

/-! ### Preparing kernels -/

/-- A prepared kernel, with the payload that it was prepared from. -/
inductive CpuKernel
  | gridInit (dimension : GraphDimension)
  | warp (d : GraphDimension) (payload : WarpPayload d)
  | sample (d : GraphDimension) (payload : SamplePayload d)
  | combine (payload : CombinePayload)
  deriving DecidableEq

/-- `prepare` of `FastNoiseKernelFactory`, which `make_cpu_backend` registers for all kinds
of FastNoise kernels. -/
def prepareKernel (kernel : KernelSpec) : BraidResult CpuKernel :=
  match FastNoiseKernel.fromKind kernel.kindId with
  | none => .error (.backendRejectedKernel kernel.kindId)
  | some .initGrid2d => .ok (.gridInit .d2)
  | some .initGrid3d => .ok (.gridInit .d3)
  | some .warp2d => (decodePayload (WarpPayload.decodeFrom .d2) kernel.payload).map (.warp .d2)
  | some .warp3d => (decodePayload (WarpPayload.decodeFrom .d3) kernel.payload).map (.warp .d3)
  | some .sample2d =>
      (decodePayload (SamplePayload.decodeFrom .d2) kernel.payload).map (.sample .d2)
  | some .sample3d =>
      (decodePayload (SamplePayload.decodeFrom .d3) kernel.payload).map (.sample .d3)
  | some .combine => (decodePayload CombinePayload.decodeFrom kernel.payload).map .combine

/-- The kernel that is prepared for a payload. -/
def KernelPayload.prepared : KernelPayload → CpuKernel
  | .warp d payload => .warp d payload
  | .sample d payload => .sample d payload
  | .combine payload => .combine { payload with params := wireParams payload.params }

/-- The payload has fewer inputs than their counter counts. -/
def KernelPayload.InputsFit : KernelPayload → Prop
  | .combine payload => payload.inputs.length < 2 ^ 32
  | _ => True

/-- **Preparing an encoded payload** never fails if its inputs fit. -/
theorem prepareKernel_encode {payload : KernelPayload} (h : payload.InputsFit) :
    prepareKernel payload.encode = .ok payload.prepared := by
  cases payload with
  | warp d payload =>
      cases d with
      | d2 =>
          have hdecode := decodePayload_of_exact (exact_warp .d2) payload
          simp only [prepareKernel, KernelPayload.encode, KernelPayload.kind,
            KernelPayload.encodeInto, FastNoiseKernel.fromKind_kind, hdecode]
          rfl
      | d3 =>
          have hdecode := decodePayload_of_exact (exact_warp .d3) payload
          simp only [prepareKernel, KernelPayload.encode, KernelPayload.kind,
            KernelPayload.encodeInto, FastNoiseKernel.fromKind_kind, hdecode]
          rfl
  | sample d payload =>
      cases d with
      | d2 =>
          have hdecode := decodePayload_of_exact (exact_sample .d2) payload
          simp only [prepareKernel, KernelPayload.encode, KernelPayload.kind,
            KernelPayload.encodeInto, FastNoiseKernel.fromKind_kind, hdecode]
          rfl
      | d3 =>
          have hdecode := decodePayload_of_exact (exact_sample .d3) payload
          simp only [prepareKernel, KernelPayload.encode, KernelPayload.kind,
            KernelPayload.encodeInto, FastNoiseKernel.fromKind_kind, hdecode]
          rfl
  | combine payload =>
      simp only [prepareKernel, KernelPayload.encode, KernelPayload.kind,
        KernelPayload.encodeInto, FastNoiseKernel.fromKind_kind,
        CombinePayload.decode_encode payload h]
      rfl

/-- `prepare` of `CpuComputeBackend`: the kernels of all stages. -/
def prepareStages (stages : List StageSpec) : HookResult (List (List CpuKernel)) :=
  HookResult.traverse (fun stage : StageSpec =>
    HookResult.traverse (fun kernel => .ofResult (prepareKernel kernel)) stage.kernels) stages

end Braids
