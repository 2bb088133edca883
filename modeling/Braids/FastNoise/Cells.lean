import Braids.FastNoise.Grid
import Mathlib.Algebra.Order.BigOperators.Group.List
import Mathlib.Data.Set.Function

/-!
# The Layout of Grids

Which index of the coordinate buffers belongs to which cell of which query, and which
samples are cut out for a query when a batch is decoded.

## Main results

* `cellIndex_bijOn`: the cells of a batch and the indices below its number of samples are in
  bijection.
* `grid_laid_out`: on an encoded batch the grid kernel writes each index once, with the
  coordinates of its cell, and decoding cuts the samples of each query in row-major order.
-/

namespace Braids

/-- A cell of the grid of a query of a batch. -/
structure GridCell where
  query : ℕ
  x : ℕ
  y : ℕ
  z : ℕ
  deriving DecidableEq, Repr

namespace ChunkQuery

/-- The cells of the grid in row-major order, of the query with the given index. -/
def rowMajor (query : ChunkQuery) (q : ℕ) : List GridCell :=
  (List.range query.size.2.2).flatMap fun z =>
    (List.range query.size.2.1).flatMap fun y =>
      (List.range query.size.1).map fun x => ⟨q, x, y, z⟩

/-- The place of a cell in its grid: `((z * height + y) * width) + x`. -/
def place (query : ChunkQuery) (cell : GridCell) : ℕ :=
  (cell.z * query.size.2.1 + cell.y) * query.size.1 + cell.x

/-- The coordinates of a cell: `origin + i * step` along each axis. -/
def coordinates (num : Numerics) (query : ChunkQuery) (cell : GridCell) : List F32 :=
  query.axes.zipWith (fun axis i => num.coordinate axis.1 axis.2 i) [cell.x, cell.y, cell.z]

/-- The cell is in the grid. -/
def InGrid (query : ChunkQuery) (cell : GridCell) : Prop :=
  cell.x < query.size.1 ∧ cell.y < query.size.2.1 ∧ cell.z < query.size.2.2

/-- The cells of a grid. -/
theorem mem_rowMajor {query : ChunkQuery} {q : ℕ} {cell : GridCell} :
    cell ∈ query.rowMajor q ↔ cell.query = q ∧ query.InGrid cell := by
  simp only [rowMajor, List.mem_flatMap, List.mem_map, List.mem_range, InGrid]
  constructor
  · rintro ⟨z, hz, y, hy, x, hx, rfl⟩
    exact ⟨rfl, hx, hy, hz⟩
  · rintro ⟨rfl, hx, hy, hz⟩
    exact ⟨cell.z, hz, cell.y, hy, cell.x, hx, rfl⟩

/-- **The cells of a grid are numbered** in row-major order. -/
theorem map_place_rowMajor (query : ChunkQuery) (q : ℕ) :
    (query.rowMajor q).map query.place = List.range query.samples := by
  have hindex := gridCells_index .d3 query.size.1 query.size.2.1 query.size.2.2
  have hsize : GraphDimension.d3.cells query.size.1 query.size.2.1 query.size.2.2 =
      query.samples := by
    cases query <;> simp [GraphDimension.cells, size, samples]
  rw [hsize] at hindex
  rw [← hindex]
  simp [rowMajor, gridCells, place, List.map_flatMap, Function.comp_def]

/-- The points of a query are the coordinates of its cells. -/
theorem points_eq_map (num : Numerics) (query : ChunkQuery) (q : ℕ) :
    query.points num = (query.rowMajor q).map (query.coordinates num) := by
  cases query <;>
    simp [points, rowMajor, size, coordinates, axes, List.map_flatMap, Function.comp_def]

end ChunkQuery

/-! ### The cells of a batch -/

/-- Where the samples of a query start: the samples of the queries before it. -/
def startOf (queries : List ChunkQuery) (q : ℕ) : ℕ :=
  ((queries.take q).map ChunkQuery.samples).sum

/-- The cell is in the grid of its query. -/
def GridCell.Valid (queries : List ChunkQuery) (cell : GridCell) : Prop :=
  ∃ query, queries[cell.query]? = some query ∧ query.InGrid cell

/-- The index of a cell: `offsets[q] + ((z * height + y) * width) + x`. -/
def cellIndex (queries : List ChunkQuery) (cell : GridCell) : ℕ :=
  startOf queries cell.query + (queries[cell.query]?).elim 0 (·.place cell)

/-- The coordinates of a cell of a batch. -/
def cellCoordinates (num : Numerics) (queries : List ChunkQuery) (cell : GridCell) : List F32 :=
  (queries[cell.query]?).elim [] (·.coordinates num cell)

/-- The cells of a batch, query by query. -/
def batchCells (queries : List ChunkQuery) : List GridCell :=
  queries.zipIdx.flatMap fun (query, q) => query.rowMajor q

/-- The cells of the rest of a batch are numbered on. -/
theorem map_cellIndex_append (done queries : List ChunkQuery) :
    ((queries.zipIdx done.length).flatMap fun (query, q) => query.rowMajor q).map
        (cellIndex (done ++ queries)) =
      List.range' (done.map ChunkQuery.samples).sum (queries.map ChunkQuery.samples).sum := by
  induction queries generalizing done with
  | nil => rfl
  | cons query queries ih =>
      have hfirst : (query.rowMajor done.length).map (cellIndex (done ++ query :: queries)) =
          List.range' (done.map ChunkQuery.samples).sum query.samples := by
        rw [List.range'_eq_map_range, ← query.map_place_rowMajor done.length, List.map_map]
        refine List.map_congr_left fun cell hmem => ?_
        obtain ⟨hq, -⟩ := ChunkQuery.mem_rowMajor.mp hmem
        simp [cellIndex, startOf, hq]
      have hrest := ih (done ++ [query])
      rw [List.append_assoc, List.singleton_append, List.length_append,
        List.length_singleton] at hrest
      rw [List.zipIdx_cons, List.flatMap_cons, List.map_append, hfirst, hrest]
      simp only [List.map_append, List.sum_append, List.map_cons, List.map_nil, List.sum_cons,
        List.sum_nil, Nat.add_zero]
      rw [List.range'_append_1]

/-- **The cells of a batch are numbered** query by query. -/
theorem map_cellIndex (queries : List ChunkQuery) :
    (batchCells queries).map (cellIndex queries) =
      List.range (queries.map ChunkQuery.samples).sum := by
  rw [List.range_eq_range']
  exact map_cellIndex_append [] queries

/-- The points of the rest of a batch are the coordinates of its cells. -/
theorem map_cellCoordinates_append (num : Numerics) (done queries : List ChunkQuery) :
    ((queries.zipIdx done.length).flatMap fun (query, q) => query.rowMajor q).map
        (cellCoordinates num (done ++ queries)) = batchPoints num queries := by
  induction queries generalizing done with
  | nil => rfl
  | cons query queries ih =>
      have hfirst : (query.rowMajor done.length).map
          (cellCoordinates num (done ++ query :: queries)) = query.points num := by
        rw [query.points_eq_map num done.length]
        refine List.map_congr_left fun cell hmem => ?_
        obtain ⟨hq, -⟩ := ChunkQuery.mem_rowMajor.mp hmem
        simp [cellCoordinates, hq]
      have hrest := ih (done ++ [query])
      rw [List.append_assoc, List.singleton_append, List.length_append,
        List.length_singleton] at hrest
      rw [List.zipIdx_cons, List.flatMap_cons, List.map_append, hfirst, hrest]
      rfl

/-- The points of a batch are the coordinates of its cells. -/
theorem map_cellCoordinates (num : Numerics) (queries : List ChunkQuery) :
    (batchCells queries).map (cellCoordinates num queries) = batchPoints num queries :=
  map_cellCoordinates_append num [] queries

/-- The cells of a batch are those of the grids of its queries. -/
theorem mem_batchCells {queries : List ChunkQuery} {cell : GridCell} :
    cell ∈ batchCells queries ↔ cell.Valid queries := by
  simp only [batchCells, List.mem_flatMap, Prod.exists, List.mem_zipIdx_iff_getElem?,
    ChunkQuery.mem_rowMajor, GridCell.Valid]
  constructor
  · rintro ⟨query, q, hquery, rfl, hin⟩
    exact ⟨query, hquery, hin⟩
  · rintro ⟨query, hquery, hin⟩
    exact ⟨query, cell.query, hquery, rfl, hin⟩

/-- **Cells and indices are in bijection.** -/
theorem cellIndex_bijOn (queries : List ChunkQuery) :
    Set.BijOn (cellIndex queries) {cell | cell.Valid queries}
      (Set.Iio (queries.map ChunkQuery.samples).sum) := by
  have hmap := map_cellIndex queries
  have hnodup : ((batchCells queries).map (cellIndex queries)).Nodup := by
    rw [hmap]
    exact List.nodup_range
  refine ⟨fun cell hcell => ?_, fun a ha b hb heq => ?_, fun i hi => ?_⟩
  · have hmem := List.mem_map_of_mem (f := cellIndex queries) (mem_batchCells.mpr hcell)
    rw [hmap, List.mem_range] at hmem
    exact hmem
  · exact List.inj_on_of_nodup_map hnodup (mem_batchCells.mpr ha) (mem_batchCells.mpr hb) heq
  · have hmem : i ∈ (batchCells queries).map (cellIndex queries) := by
      rw [hmap, List.mem_range]
      exact hi
    obtain ⟨cell, hcell, rfl⟩ := List.mem_map.mp hmem
    exact ⟨cell, mem_batchCells.mp hcell, rfl⟩

/-- A cell is listed at its index. -/
theorem getElem?_batchCells {queries : List ChunkQuery} {cell : GridCell}
    (h : cell.Valid queries) : (batchCells queries)[cellIndex queries cell]? = some cell := by
  obtain ⟨i, hi⟩ := List.getElem?_of_mem (mem_batchCells.mpr h)
  have hindex : ((batchCells queries).map (cellIndex queries))[i]? =
      some (cellIndex queries cell) := by
    rw [List.getElem?_map, hi, Option.map_some]
  rw [map_cellIndex, List.getElem?_range (by
    have hlt := (List.getElem?_eq_some_iff.mp hi).1
    have hlen := congrArg List.length (map_cellIndex queries)
    simp only [List.length_map, List.length_range] at hlen
    omega)] at hindex
  obtain rfl := Option.some.inj hindex
  exact hi

/-! ### Batches whose numbers fit -/

/-- Queries of one dimension whose sizes and sample count fit in `u32`. -/
structure GridBatch (d : GraphDimension) (queries : List ChunkQuery) : Prop where
  dimension : ∀ query ∈ queries, query.dimension = d
  size : ∀ query ∈ queries,
    query.size.1 < 2 ^ 32 ∧ query.size.2.1 < 2 ^ 32 ∧ query.size.2.2 < 2 ^ 32
  total : (queries.map ChunkQuery.samples).sum < 2 ^ 32

/-- Counting the samples of such queries does not overflow. -/
theorem GridBatch.fits {d : GraphDimension} {queries : List ChunkQuery} (h : GridBatch d queries)
    (build : Build) : BatchFits build d queries := by
  refine ⟨h.dimension, h.total, fun query hquery => ?_⟩
  obtain ⟨hw, hh, hd⟩ := h.size query hquery
  have hle : query.samples ≤ (queries.map ChunkQuery.samples).sum :=
    List.le_sum_of_mem (List.mem_map_of_mem hquery)
  have htotal := h.total
  have hcount : query.samples < usizeLimit := by
    rw [usizeLimit]
    omega
  have harea : query.size.1 * query.size.2.1 < usizeLimit := by
    calc query.size.1 * query.size.2.1
        ≤ 2 ^ 32 * query.size.2.1 := Nat.mul_le_mul_right _ (Nat.le_of_lt hw)
      _ < 2 ^ 32 * 2 ^ 32 := Nat.mul_lt_mul_of_pos_left hh (by decide)
      _ = usizeLimit := by decide
  cases query with
  | grid2D => exact build.unsigned_of_lt hcount
  | grid3D width height =>
      have harea' : width * height < usizeLimit := harea
      rw [ChunkQuery.sampleCount, sampleCount3d, build.unsigned_of_lt harea', HookResult.ok_bind]
      exact build.unsigned_of_lt hcount

/-- The offsets of the rest of a batch. -/
theorem getElem?_endOffsets (cursor : ℕ) {queries : List ChunkQuery} {q : ℕ}
    (hq : q ≤ queries.length) :
    (UInt32.ofNat cursor :: endOffsets cursor queries)[q]? =
      some (.ofNat (cursor + startOf queries q)) := by
  induction queries generalizing cursor q with
  | nil =>
      obtain rfl : q = 0 := Nat.le_zero.mp hq
      rfl
  | cons query queries ih =>
      cases q with
      | zero => rfl
      | succ q =>
          have hrest := ih (cursor + query.samples) (Nat.le_of_succ_le_succ hq)
          rw [endOffsets, List.getElem?_cons_succ, hrest]
          simp [startOf, Nat.add_assoc]

/-- The offsets of an encoded batch say where its queries start. -/
theorem getElem?_offsets {queries : List ChunkQuery}
    (htotal : (queries.map ChunkQuery.samples).sum < 2 ^ 32) {q : ℕ} (hq : q ≤ queries.length) :
    ∃ offset, (0 :: endOffsets 0 queries)[q]? = some offset ∧
      offset.toNat = startOf queries q := by
  have hget := getElem?_endOffsets 0 hq
  rw [Nat.zero_add] at hget
  refine ⟨_, hget, UInt32.toNat_ofNat_of_lt' (Nat.lt_of_le_of_lt ?_ htotal)⟩
  have hsum : (queries.map ChunkQuery.samples).sum =
      startOf queries q + ((queries.drop q).map ChunkQuery.samples).sum := by
    rw [startOf, ← List.sum_append, ← List.map_append, List.take_append_drop]
  omega

/-! ### Slices -/

/-- The samples of each query, cell by cell, in a buffer of samples. -/
def slices (queries : List ChunkQuery) (values : List F32) : List (List F32) :=
  queries.zipIdx.map fun (query, q) =>
    (query.rowMajor q).map fun cell => values.getD (cellIndex queries cell) F32.zero

/-- The slices are the buffer. -/
theorem flatten_slices {queries : List ChunkQuery} {values : List F32}
    (h : values.length = (queries.map ChunkQuery.samples).sum) :
    (slices queries values).flatten = values := by
  have hflat : (slices queries values).flatten =
      ((batchCells queries).map (cellIndex queries)).map fun i => values.getD i F32.zero := by
    rw [slices, List.map_map, batchCells, List.map_flatMap]
    rfl
  rw [hflat, map_cellIndex, ← h]
  exact List.ext_getElem (by simp) fun i hi hi' => by simp [hi']

/-- Each query gets as many samples as its grid has cells. -/
theorem forall₂_slices (queries : List ChunkQuery) (values : List F32) :
    List.Forall₂ (fun query l => l.length = query.samples) queries (slices queries values) := by
  rw [List.forall₂_iff_get]
  refine ⟨by simp [slices], fun i hi hi' => ?_⟩
  have hlen := congrArg List.length (queries[i].map_place_rowMajor i)
  simp only [List.length_map, List.length_range] at hlen
  simpa [slices] using hlen

/-- The coordinate buffers at the index of a cell. -/
theorem column_batchPoints (num : Numerics) {d : GraphDimension} {queries : List ChunkQuery}
    (hdim : ∀ query ∈ queries, query.dimension = d) {cell : GridCell}
    (h : cell.Valid queries) {j : ℕ} (hj : j < d.size) :
    (column (batchPoints num queries) j)[cellIndex queries cell]? =
      (cellCoordinates num queries cell)[j]? := by
  have hcell : (batchPoints num queries)[cellIndex queries cell]? =
      some (cellCoordinates num queries cell) := by
    rw [← map_cellCoordinates, List.getElem?_map, getElem?_batchCells h, Option.map_some]
  have hlen := length_of_mem_batchPoints hdim (List.mem_of_getElem? hcell)
  rw [column, List.getElem?_map, hcell, Option.map_some]
  simp [List.getD_eq_getElem?_getD, hlen, hj]

/-! ### The layout -/

/-- **Grids are laid out.** On a packet encoded from any other, the grid kernel writes every
index of the coordinate buffers once, each with the coordinates of its cell. Cells and indices
are in bijection, and decoding cuts the samples of each query, cell by cell in row-major
order, with no sample left out. -/
theorem grid_laid_out (build : Build) (num : Numerics)
    {plan : CompiledPlan FastNoisePlannerMeta} {queries : List ChunkQuery}
    (h : GridBatch plan.plannerMeta.dimension queries) {p : JobPacket} (hp : p.Wf) :
    ∃ (p₁ p₂ : JobPacket) (metas : List UInt32) (floats : List F32) (offsets : List UInt32)
        (writes : List (ℕ × List F32)),
      (encodeBatch build plan queries).run p = some (.ok (), p₁) ∧
      p₁.view slotQueryMeta = some (.ofList .u32 metas) ∧
      p₁.view slotQueryF32 = some (.ofList .f32 floats) ∧
      p₁.view slotQueryOffsets = some (.ofList .u32 offsets) ∧
      (∀ q ≤ queries.length, (offsets[q]?).map UInt32.toNat = some (startOf queries q)) ∧
      -- the loops of the kernel
      gridWrites num plan.plannerMeta.dimension metas floats 0 (offsets.take p₁.queryCount) =
        some writes ∧
      writes.map (·.1) = List.range (queries.map ChunkQuery.samples).sum ∧
      (∀ cell : GridCell, cell.Valid queries →
        (cellIndex queries cell, cellCoordinates num queries cell) ∈ writes) ∧
      Set.BijOn (cellIndex queries) {cell | cell.Valid queries}
        (Set.Iio (queries.map ChunkQuery.samples).sum) ∧
      -- what the kernel leaves in the packet
      (runGridInit num plan.plannerMeta.dimension).run p₁ = some (.ok (), p₂) ∧
      (∀ (j : ℕ) (slot : BufferSlot),
        (basePositionSlots plan.plannerMeta.dimension).coords[j]? = some slot →
          ∃ buffer : List F32, p₂.view slot = some (.ofList .f32 buffer) ∧
            buffer.length = (queries.map ChunkQuery.samples).sum ∧
            ∀ cell : GridCell, cell.Valid queries →
              buffer[cellIndex queries cell]? = (cellCoordinates num queries cell)[j]?) ∧
      -- what is cut from the final buffer by the same offsets
      ∀ (p₃ : JobPacket) (values : List F32), p₃.Wf →
        p₃.view slotQueryOffsets = some (.ofList .u32 offsets) →
        p₃.view plan.plannerMeta.finalSlot = some (.ofList .f32 values) →
        values.length = (queries.map ChunkQuery.samples).sum →
        (decodeBatch num plan).run p₃ =
            some (.ok ((slices queries values).map (summarizeSamples num)), p₃) ∧
          (slices queries values).flatten = values := by
  obtain ⟨p₁, hrun₁, henc, -⟩ := encodeBatch_spec (h.fits build) hp
  obtain ⟨p₂, hrun₂, -, -, hholds, -⟩ := runGridInit_spec num h.dimension h.total henc
  have hwrites := gridWrites_spec num [] h.dimension 0 (by simpa using h.total)
  rw [List.nil_append, List.length_nil, ← List.range_eq_range'] at hwrites
  have htake : (0 :: endOffsets 0 queries).take p₁.queryCount = startOffsets 0 queries := by
    rw [henc.count]
    exact take_offsets 0 queries
  refine ⟨p₁, p₂, _, _, _, _, hrun₁, henc.metas, henc.floats, henc.offsets, fun q hq => ?_,
    htake ▸ hwrites, ?_, fun cell hcell => ?_, cellIndex_bijOn queries, hrun₂,
    fun j slot hslot => ?_, fun p₃ values hp₃ hoffsets hfinal hlen => ?_⟩
  · obtain ⟨offset, hget, hstart⟩ := getElem?_offsets h.total hq
    rw [hget, Option.map_some, hstart]
  · exact List.map_fst_zip (by simp)
  · have hcells : (List.range (queries.map ChunkQuery.samples).sum).zip (batchPoints num queries) =
        (batchCells queries).map fun cell =>
          (cellIndex queries cell, cellCoordinates num queries cell) := by
      rw [← map_cellIndex, ← map_cellCoordinates, List.zip_map']
    rw [hcells]
    exact List.mem_map_of_mem (f := fun cell =>
      (cellIndex queries cell, cellCoordinates num queries cell)) (mem_batchCells.mpr hcell)
  · have hj : j < plan.plannerMeta.dimension.size := by
      rw [← (basePositionSlots plan.plannerMeta.dimension).length_coords]
      exact (List.getElem?_eq_some_iff.mp hslot).1
    exact ⟨_, hholds j slot hslot, by simp,
      fun cell hcell => column_batchPoints num h.dimension hcell hj⟩
  · have hflatten := flatten_slices hlen
    exact ⟨decodeBatch_spec num hp₃ hoffsets (forall₂_slices queries values) h.total
      (by rw [hflatten, hfinal]), hflatten⟩

/-- Three grids, of which one has no cells. -/
def gridTriple : List ChunkQuery :=
  [.grid2D 2 1 ⟨0⟩ ⟨0⟩ ⟨1⟩ ⟨1⟩, .grid2D 0 7 ⟨0⟩ ⟨0⟩ ⟨1⟩ ⟨1⟩, .grid2D 1 3 ⟨0⟩ ⟨0⟩ ⟨1⟩ ⟨1⟩]

/-- A plan for 2D grids. -/
def gridPlan : CompiledPlan FastNoisePlannerMeta where
  pipeline := ⟨[], []⟩
  staticBuffers := []
  plannerMeta := ⟨.d2, ⟨32⟩⟩

/-- The three grids are laid out in a new packet. -/
theorem grid_laid_out_three :
    ∃ p₁ p₂, (encodeBatch ⟨true⟩ gridPlan gridTriple).run {} = some (.ok (), p₁) ∧
      (runGridInit .silent .d2).run p₁ = some (.ok (), p₂) ∧
      Set.BijOn (cellIndex gridTriple) {cell | cell.Valid gridTriple} (Set.Iio 5) := by
  have hgrid : GridBatch gridPlan.plannerMeta.dimension gridTriple := by
    constructor <;> decide
  obtain ⟨p₁, p₂, -, -, -, -, hencode, -, -, -, -, -, -, -, hbij, hrun, -⟩ :=
    grid_laid_out ⟨true⟩ .silent hgrid JobPacket.wf_default
  exact ⟨p₁, p₂, hencode, hrun, hbij⟩

end Braids
