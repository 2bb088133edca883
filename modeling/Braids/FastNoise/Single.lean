import Braids.FastNoise.Borrows
import Braids.FastNoise.Encode

/-!
# The Path of a Single Query

`encode_one` and `decode_one` of `runtime.rs`, next to `encode_batch` and `decode_batch`.

The kernels write buffers of floats only. The offsets that were encoded are therefore still
there when a decoder can read them, whatever slots the kernels wrote.

## Main results

* `encodeOne_eq`: the encoder of one query is the encoder of a batch of one.
* `runAllStages_writes`: kernels write floats.
* `decodeOne_eq_ok_iff`: after the stages, the decoder of one query returns what the decoder
  of a batch returns.
-/

namespace Braids

open PacketM

/-! ### `encode_one` and `decode_one` -/

/-- `encode_one`. -/
def encodeOne (build : Build) (plan : CompiledPlan FastNoisePlannerMeta) (query : ChunkQuery) :
    PacketM Unit := do
  .modify fun p => { p with queryCount := 1 }
  let metaValues ← JobPacket.ensure .u32 slotQueryMeta 3 some
  let floatValues ← JobPacket.ensure .f32 slotQueryF32 6 some
  let offsetValues ← JobPacket.ensure .u32 slotQueryOffsets 2 some
  let count ← .read fun _ =>
    if query.dimension ≠ plan.plannerMeta.dimension then .panicked else query.sampleCount build
  let _ ← JobPacket.sliceMut .u32 slotQueryMeta fun _ => setMany metaValues 0 query.metas
  let _ ← JobPacket.sliceMut .f32 slotQueryF32 fun _ => setMany floatValues 0 query.floats
  let _ ← JobPacket.sliceMut .u32 slotQueryOffsets fun _ =>
    (offsetValues.set 0 0).set 1 (.ofNat count)

/-- `decode_one`. -/
def decodeOne (num : Numerics) (plan : CompiledPlan FastNoisePlannerMeta) :
    PacketM ChunkSummary :=
  .read fun p => do
    let values ← p.slice .f32 plan.plannerMeta.finalSlot
    let offsets ← p.slice .u32 slotQueryOffsets
    match offsets with
    | first :: second :: _ =>
        let stop := second.toNat
        let start := first.toNat
        if values.length < stop ∨ values.length < start ∨ stop < start then
          .err (.message "invalid fastnoise offsets")
        else .ok (summarizeSamples num ((values.drop start).take (stop - start)))
    | _ => .err (.message "missing fastnoise offsets")

/-! ### Encoding -/

/-- What is counted fits in a `usize`. -/
theorem Build.lt_of_unsigned {build : Build} {limit value result : ℕ} (hlimit : 0 < limit)
    (h : build.unsigned limit value = .ok result) : result < limit := by
  rw [Build.unsigned] at h
  split at h
  · next hlt =>
      obtain rfl := HookResult.ok.inj h
      exact hlt
  · split at h
    · simp at h
    · obtain rfl := HookResult.ok.inj h
      exact Nat.mod_lt _ hlimit

/-- The number of samples, as the encoder counts them, fits in a `usize`. -/
theorem ChunkQuery.lt_of_sampleCount {build : Build} {query : ChunkQuery} {count : ℕ}
    (h : query.sampleCount build = .ok count) : count < usizeLimit := by
  cases query with
  | grid2D width height => exact build.lt_of_unsigned (by decide) h
  | grid3D width height depth =>
      obtain ⟨area, -, hcount⟩ := HookResult.bind_eq_ok.mp h
      exact build.lt_of_unsigned (by decide) hcount

/-- The loop of `encode_batch` over a single query. -/
theorem encodeQueries_singleton (build : Build) (d : GraphDimension) (metaValues : List UInt32)
    (floatValues : List F32) (offsetValues : List UInt32) (query : ChunkQuery) :
    encodeQueries build d { metaValues, floatValues, offsetValues, cursor := 0 } 0 [query] =
      (if query.dimension ≠ d then .panicked else query.sampleCount build) >>= fun count =>
        .ok { metaValues := setMany metaValues 0 query.metas
              floatValues := setMany floatValues 0 query.floats
              offsetValues := offsetValues.set 1 (.ofNat count)
              cursor := count } := by
  rw [encodeQueries]
  by_cases hdim : query.dimension ≠ d
  · rw [if_pos hdim, if_pos hdim, HookResult.panicked_bind]
  · rw [if_neg hdim, if_neg hdim]
    cases hcount : query.sampleCount build with
    | ok count =>
        have hlt : count < usizeLimit := ChunkQuery.lt_of_sampleCount hcount
        simp only [HookResult.ok_bind, Nat.zero_add, Nat.zero_mul, build.unsigned_of_lt hlt,
          encodeQueries]
    | err e => rfl
    | panicked => rfl

/-- **The encoder of one query is the encoder of a batch of one.** -/
theorem encodeOne_eq (build : Build) (plan : CompiledPlan FastNoisePlannerMeta)
    (query : ChunkQuery) : encodeOne build plan query = encodeBatch build plan [query] := by
  have hread : ∀ (x : HookResult ℕ) (f : ℕ → EncodeState) (k : EncodeState → PacketM Unit),
      (read fun _ => x >>= fun count => .ok (f count)) >>= k =
        (read fun _ => x) >>= fun count => k (f count) := by
    intro x f k
    cases x <;> rfl
  rw [encodeOne, encodeBatch]
  simp only [List.length_singleton, encodeQueries_singleton, hread]

/-! ### Kernels write floats -/

/-- **The stages of a plan write floats.** -/
theorem runAllStages_writes {M : Type} (num : Numerics) (plan : CompiledPlan M)
    (prepared : List (List CpuKernel)) : (runAllStages num plan prepared).Writes .f32 := by
  rw [runAllStages]
  generalize List.range plan.pipeline.stages.length = stages
  induction stages with
  | nil => exact .pure ()
  | cons stageIndex stages ih =>
      exact .bind (KernelLoops.plain.runStage_writes num prepared stageIndex ()) fun _ => ih

/-! ### Decoding -/

/-- What `decode_one` returns. -/
theorem decodeOne_eq_ok_iff (num : Numerics) (plan : CompiledPlan FastNoisePlannerMeta)
    {p : JobPacket} {stop : UInt32}
    (hoffsets : ∀ offsets, p.slice .u32 slotQueryOffsets = .ok offsets → offsets = [0, stop])
    (s : ChunkSummary) :
    (decodeOne num plan).run p = some (.ok s, p) ↔
      (decodeBatch num plan).run p = some (.ok [s], p) := by
  simp only [decodeOne, decodeBatch, run_read]
  cases hvalues : p.slice .f32 plan.plannerMeta.finalSlot with
  | err e => simp [HookResult.result?]
  | panicked => simp [HookResult.result?]
  | ok values =>
      cases hslice : p.slice .u32 slotQueryOffsets with
      | err e => simp [HookResult.result?]
      | panicked => simp [HookResult.result?]
      | ok offsets =>
          obtain rfl := hoffsets offsets hslice
          simp only [HookResult.ok_bind, List.drop_one, List.tail_cons, summarizeAll,
            UInt32.toNat_zero, Nat.zero_le, true_and]
          by_cases hle : stop.toNat ≤ values.length
          · have hnot : ¬ (values.length < stop.toNat ∨ values.length < 0 ∨ stop.toNat < 0) := by
              omega
            rw [if_pos hle, if_neg hnot]
            simp [HookResult.result?]
          · have hshort : values.length < stop.toNat ∨ values.length < 0 ∨ stop.toNat < 0 := by
              omega
            rw [if_neg hle, if_pos hshort]
            simp [HookResult.result?]

end Braids
