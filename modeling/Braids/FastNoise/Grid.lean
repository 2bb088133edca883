import Braids.FastNoise.Encode
import Braids.FastNoise.Loops
import Mathlib.Tactic.Ring

/-!
# The Sample Grid

`GridInitKernel` lays out the cells of all queries one after another, each grid in row-major
order, and writes the coordinates of each cell.

## Main result

* `runGridInit_spec`: after the kernel ran on an encoded batch, the base slots hold the
  points of the queries, and no other slot changed.
-/

namespace Braids

/-- The points of a grid in row-major order: `origin + i * step` along each axis. -/
def ChunkQuery.points (num : Numerics) : ChunkQuery → List (List F32)
  | .grid2D width height originX originY stepX stepY =>
      (List.range height).flatMap fun y =>
        (List.range width).map fun x =>
          [num.coordinate originX stepX x, num.coordinate originY stepY y]
  | .grid3D width height depth originX originY originZ stepX stepY stepZ =>
      (List.range depth).flatMap fun z =>
        (List.range height).flatMap fun y =>
          (List.range width).map fun x =>
            [num.coordinate originX stepX x, num.coordinate originY stepY y,
              num.coordinate originZ stepZ z]

/-- The points of a batch. -/
def batchPoints (num : Numerics) (queries : List ChunkQuery) : List (List F32) :=
  queries.flatMap (·.points num)

/-! ### Cells -/

/-- Rows of a grid, one after another. -/
theorem flatMap_rows (width height : ℕ) :
    ((List.range height).flatMap fun y => (List.range width).map fun x => y * width + x) =
      List.range (height * width) := by
  induction height with
  | zero => simp
  | succ height ih =>
      rw [List.range_succ, List.flatMap_append, ih, Nat.succ_mul, List.range_add]
      simp

/-- The number of cells of a grid. -/
def GraphDimension.cells : GraphDimension → (width height depth : ℕ) → ℕ
  | .d2, width, height, _ => width * height
  | .d3, width, height, depth => width * height * depth

/-- The cells of a grid are numbered in the order of the loops. -/
theorem gridCells_index (d : GraphDimension) (width height depth : ℕ) :
    (gridCells d width height depth).map (·.2) = List.range (d.cells width height depth) := by
  cases d with
  | d2 =>
      have hrows := flatMap_rows width height
      rw [Nat.mul_comm height width] at hrows
      simpa [gridCells, List.map_flatMap, Function.comp_def, GraphDimension.cells] using hrows
  | d3 =>
      have hslice : ∀ z, ((List.range height).flatMap fun y =>
          (List.range width).map fun x => (z * height + y) * width + x) =
          (List.range (height * width)).map fun i => z * (height * width) + i := by
        intro z
        rw [← flatMap_rows width height, List.map_flatMap]
        congr 1
        funext y
        rw [List.map_map]
        congr 1
        funext x
        simp only [Function.comp_apply]
        ring
      have hrows := flatMap_rows (height * width) depth
      have hcount : depth * (height * width) = width * height * depth := by ring
      rw [hcount] at hrows
      simp only [gridCells, List.map_flatMap, List.map_map, Function.comp_def, hslice, hrows,
        GraphDimension.cells]

/-- As many cells as there are indices. -/
theorem length_gridCells (d : GraphDimension) (width height depth : ℕ) :
    (gridCells d width height depth).length = d.cells width height depth := by
  have hlen := congrArg List.length (gridCells_index d width height depth)
  simpa using hlen

/-- The kernel and the encoder agree about grids whose size was cut to `u32`, if the number
of cells fits. -/
theorem gridCells_mod (d : GraphDimension) {width height depth : ℕ}
    (h : d.cells width height depth < 2 ^ 32) :
    gridCells d (width % 2 ^ 32) (height % 2 ^ 32) (depth % 2 ^ 32) =
      gridCells d width height depth := by
  by_cases hzero : d.cells width height depth = 0
  · -- a grid without cells stays one
    have hmod : d.cells (width % 2 ^ 32) (height % 2 ^ 32) (depth % 2 ^ 32) = 0 := by
      cases d with
      | d2 =>
          rcases Nat.mul_eq_zero.mp hzero with rfl | rfl <;> simp [GraphDimension.cells]
      | d3 =>
          rcases Nat.mul_eq_zero.mp hzero with hzero | rfl
          · rcases Nat.mul_eq_zero.mp hzero with rfl | rfl <;> simp [GraphDimension.cells]
          · simp [GraphDimension.cells]
    rw [List.length_eq_zero_iff.mp ((length_gridCells d _ _ _).trans hzero),
      List.length_eq_zero_iff.mp ((length_gridCells d _ _ _).trans hmod)]
  · cases d with
    | d2 =>
        simp only [GraphDimension.cells] at h hzero
        have hw : 0 < width := Nat.pos_of_ne_zero fun hw => hzero (by simp [hw])
        have hh : 0 < height := Nat.pos_of_ne_zero fun hh => hzero (by simp [hh])
        rw [Nat.mod_eq_of_lt ((Nat.le_mul_of_pos_right width hh).trans_lt h),
          Nat.mod_eq_of_lt ((Nat.le_mul_of_pos_left height hw).trans_lt h)]
        rfl
    | d3 =>
        simp only [GraphDimension.cells] at h hzero
        have hw : 0 < width := Nat.pos_of_ne_zero fun hw => hzero (by simp [hw])
        have hh : 0 < height := Nat.pos_of_ne_zero fun hh => hzero (by simp [hh])
        have hd : 0 < depth := Nat.pos_of_ne_zero fun hd => hzero (by simp [hd])
        have harea : width * height < 2 ^ 32 := (Nat.le_mul_of_pos_right _ hd).trans_lt h
        rw [Nat.mod_eq_of_lt ((Nat.le_mul_of_pos_right width hh).trans_lt harea),
          Nat.mod_eq_of_lt ((Nat.le_mul_of_pos_left height hw).trans_lt harea),
          Nat.mod_eq_of_lt ((Nat.le_mul_of_pos_left depth (Nat.mul_pos hw hh)).trans_lt h)]

/-! ### The points of a query -/

namespace ChunkQuery

/-- The size of the grid. -/
def size : ChunkQuery → ℕ × ℕ × ℕ
  | .grid2D width height .. => (width, height, 1)
  | .grid3D width height depth .. => (width, height, depth)

/-- The origin and the step of the grid. -/
def axes : ChunkQuery → List (F32 × F32)
  | .grid2D _ _ originX originY stepX stepY => [(originX, stepX), (originY, stepY)]
  | .grid3D _ _ _ originX originY originZ stepX stepY stepZ =>
      [(originX, stepX), (originY, stepY), (originZ, stepZ)]

/-- The cells of the grid of a query, as the kernel lays them out. -/
def cells (query : ChunkQuery) : List (List ℕ × ℕ) :=
  gridCells query.dimension query.size.1 query.size.2.1 query.size.2.2

/-- The number of cells is the number of samples. -/
theorem cells_size (query : ChunkQuery) :
    query.dimension.cells query.size.1 query.size.2.1 query.size.2.2 = query.samples := by
  cases query <;> rfl

/-- The points are the cells, with their coordinates along the axes. -/
theorem points_eq (num : Numerics) (query : ChunkQuery) :
    query.points num = query.cells.map fun cell =>
      query.axes.zipWith (fun axis i => num.coordinate axis.1 axis.2 i) cell.1 := by
  cases query <;>
    simp [points, cells, gridCells, dimension, size, axes, List.map_flatMap, Function.comp_def]

@[simp] theorem length_points (num : Numerics) (query : ChunkQuery) :
    (query.points num).length = query.samples := by
  rw [points_eq, List.length_map, cells, length_gridCells, cells_size]

/-- A point has as many coordinates as the grid has axes. -/
theorem length_of_mem_points {num : Numerics} {query : ChunkQuery} {v : List F32}
    (h : v ∈ query.points num) : v.length = query.dimension.size := by
  cases query with
  | grid2D =>
      simp only [points, List.mem_flatMap, List.mem_map] at h
      obtain ⟨_, -, _, -, rfl⟩ := h
      rfl
  | grid3D =>
      simp only [points, List.mem_flatMap, List.mem_map] at h
      obtain ⟨_, -, _, -, _, -, rfl⟩ := h
      rfl

end ChunkQuery

@[simp] theorem length_batchPoints (num : Numerics) (queries : List ChunkQuery) :
    (batchPoints num queries).length = (queries.map ChunkQuery.samples).sum := by
  simp [batchPoints, List.length_flatMap]

/-- The points of a batch have as many coordinates as the graph has dimensions. -/
theorem length_of_mem_batchPoints {num : Numerics} {d : GraphDimension}
    {queries : List ChunkQuery} (hdim : ∀ query ∈ queries, query.dimension = d) {v : List F32}
    (h : v ∈ batchPoints num queries) : v.length = d.size := by
  obtain ⟨query, hquery, hv⟩ := List.mem_flatMap.mp h
  rw [ChunkQuery.length_of_mem_points hv, hdim query hquery]

/-! ### The kernel -/

/-- What the kernel writes for one query. -/
theorem query_writes (num : Numerics) {query : ChunkQuery} (h : query.samples < 2 ^ 32)
    (cursor : ℕ) :
    ((gridCells query.dimension (query.size.1 % 2 ^ 32) (query.size.2.1 % 2 ^ 32)
        (query.size.2.2 % 2 ^ 32)).map fun cell =>
      (cursor + cell.2, query.axes.zipWith (fun axis i => num.coordinate axis.1 axis.2 i) cell.1)) =
      (List.range' cursor query.samples).zip (query.points num) := by
  rw [gridCells_mod query.dimension (by rwa [query.cells_size]), query.points_eq,
    ← query.cells_size,
    List.range'_eq_map_range, ← gridCells_index]
  change query.cells.map _ = _
  rw [ChunkQuery.cells, List.map_map, List.zip_map', Function.comp_def]

/-- The origin and the step of a query in its entries. -/
theorem readMany_floats (done rest : List F32) (query : ChunkQuery) :
    readMany (done ++ query.floats ++ rest) done.length query.dimension.size =
        some (query.axes.map (·.1)) ∧
      readMany (done ++ query.floats ++ rest) (done.length + 3) query.dimension.size =
        some (query.axes.map (·.2)) := by
  cases query <;>
    simp [readMany, ChunkQuery.floats, ChunkQuery.dimension, GraphDimension.size,
      ChunkQuery.axes, List.append_assoc] <;> omega

/-- The size of a query in its entries. -/
theorem getElem?_metas (done rest : List UInt32) (query : ChunkQuery) :
    (done ++ query.metas ++ rest)[done.length]? = some (.ofNat query.size.1) ∧
      (done ++ query.metas ++ rest)[done.length + 1]? = some (.ofNat query.size.2.1) ∧
      readDepth query.dimension (done ++ query.metas ++ rest) done.length =
        some (.ofNat query.size.2.2) := by
  cases query <;>
    simp [ChunkQuery.metas, ChunkQuery.dimension, ChunkQuery.size, readDepth, List.append_assoc]

/-- **What the loops of the kernel write**: the points of the batch, at consecutive indices. -/
theorem gridWrites_spec (num : Numerics) {d : GraphDimension} (done : List ChunkQuery)
    {queries : List ChunkQuery} (hdim : ∀ query ∈ queries, query.dimension = d) (cursor : ℕ)
    (htotal : cursor + (queries.map ChunkQuery.samples).sum < 2 ^ 32) :
    gridWrites num d ((done ++ queries).flatMap ChunkQuery.metas)
        ((done ++ queries).flatMap ChunkQuery.floats) done.length (startOffsets cursor queries) =
      some ((List.range' cursor (queries.map ChunkQuery.samples).sum).zip
        (batchPoints num queries)) := by
  induction queries generalizing done cursor with
  | nil => rfl
  | cons query queries ih =>
      rw [List.map_cons, List.sum_cons] at htotal
      obtain rfl := hdim query List.mem_cons_self
      have hrest := ih (done ++ [query]) (fun q hq => hdim q (List.mem_cons_of_mem _ hq))
        (cursor + query.samples) (by omega)
      rw [List.append_assoc, List.singleton_append, List.length_append,
        List.length_singleton] at hrest
      have hm : (done.flatMap ChunkQuery.metas).length = done.length * 3 := by
        simp [List.length_flatMap]
      have hf : (done.flatMap ChunkQuery.floats).length = done.length * 6 := by
        simp [List.length_flatMap]
      obtain ⟨hwidth, hheight, hdepth⟩ := getElem?_metas (done.flatMap ChunkQuery.metas)
        (queries.flatMap ChunkQuery.metas) query
      obtain ⟨horigin, hstep⟩ := readMany_floats (done.flatMap ChunkQuery.floats)
        (queries.flatMap ChunkQuery.floats) query
      have hmetas : (done ++ query :: queries).flatMap ChunkQuery.metas =
          done.flatMap ChunkQuery.metas ++ query.metas ++ queries.flatMap ChunkQuery.metas := by
        simp
      have hfloats : (done ++ query :: queries).flatMap ChunkQuery.floats =
          done.flatMap ChunkQuery.floats ++ query.floats ++
            queries.flatMap ChunkQuery.floats := by
        simp
      rw [← hmetas, hm] at hwidth hheight hdepth
      rw [← hfloats, hf] at horigin hstep
      have hcursor : (UInt32.ofNat cursor).toNat = cursor :=
        UInt32.toNat_ofNat_of_lt' (show cursor < 2 ^ 32 by omega)
      have hzip : (query.axes.map (·.1)).zip (query.axes.map (·.2)) = query.axes := by
        rw [List.zip_map', List.map_id'']
        exact fun _ => rfl
      have hsamples : query.samples < 2 ^ 32 := by omega
      have hwrites := query_writes num hsamples cursor
      rw [startOffsets, gridWrites]
      simp only [hwidth, hheight, hdepth, horigin, hstep, hrest, Option.bind_eq_bind,
        Option.bind_some, hcursor, hzip, UInt32.toNat_ofNat', pure]
      rw [hwrites, List.map_cons, List.sum_cons, ← List.zip_append (by simp),
        ← List.range'_append_1]
      rfl

/-- The number of samples in the offsets of a batch. -/
theorem totalSamples_endOffsets {queries : List ChunkQuery}
    (htotal : (queries.map ChunkQuery.samples).sum < 2 ^ 32) :
    totalSamplesFromOffsets (0 :: endOffsets 0 queries) =
      (queries.map ChunkQuery.samples).sum := by
  have hlast := getLast?_offsets 0 queries
  rw [Nat.zero_add] at hlast
  change (0 :: endOffsets 0 queries).getLast? = _ at hlast
  rw [totalSamplesFromOffsets, hlast, Option.getD_some, UInt32.toNat_ofNat_of_lt' htotal]

/-- The base slots are distinct. -/
theorem nodup_basePositionSlots (d : GraphDimension) : (basePositionSlots d).coords.Nodup := by
  cases d <;> decide

/-- What the kernel does before its loops: it makes the base slots long enough. -/
theorem runGridInit_run (num : Numerics) {d : GraphDimension} {queries : List ChunkQuery}
    (htotal : (queries.map ChunkQuery.samples).sum < 2 ^ 32) {p : JobPacket}
    (hp : Encoded queries p) :
    ∃ p₁ : JobPacket, p₁.Wf ∧ p₁.queryCount = p.queryCount ∧
      (∀ slot ∈ (basePositionSlots d).coords, ∃ old : List F32,
        p₁.view slot = some (.ofList .f32 old) ∧ old.length = (batchPoints num queries).length) ∧
      (∀ slot ∉ (basePositionSlots d).coords, p₁.view slot = p.view slot) ∧
      ∀ {σ : Type} (loops : KernelLoops σ) (flag : σ),
        (loops.runGridInit num d flag).run p =
          (JobPacket.withSlices .f32 (basePositionSlots d).coords
            (loops.grid num d (queries.flatMap ChunkQuery.metas)
              (queries.flatMap ChunkQuery.floats) (startOffsets 0 queries) flag)).run p₁ := by
  obtain ⟨p₁, hrun₁, hwf₁, hcount₁, hbase₁, hother₁⟩ := ensureAll_spec hp.wf
    (queries.map ChunkQuery.samples).sum (basePositionSlots d).coords
  rw [← length_batchPoints num queries] at hbase₁
  have htake : (0 :: endOffsets 0 queries).take p.queryCount = startOffsets 0 queries := by
    rw [hp.count]
    exact take_offsets 0 queries
  refine ⟨p₁, hwf₁, hcount₁, hbase₁, hother₁, fun loops flag => ?_⟩
  simp only [KernelLoops.runGridInit, PacketM.run_bind, PacketM.run_read,
    JobPacket.slice_of_view hp.wf hp.metas, JobPacket.slice_of_view hp.wf hp.floats,
    JobPacket.slice_of_view hp.wf hp.offsets, HookResult.result?, Option.map_some,
    Option.bind_some, totalSamples_endOffsets htotal, hrun₁, htake]

/-- What the loops of the kernel make of its buffers. -/
theorem plain_grid_spec (num : Numerics) {d : GraphDimension} {queries : List ChunkQuery}
    (hdim : ∀ query ∈ queries, query.dimension = d)
    (htotal : (queries.map ChunkQuery.samples).sum < 2 ^ 32) {olds : List (List F32)}
    (holds : olds.length = (basePositionSlots d).coords.length)
    (holdlen : ∀ old ∈ olds, old.length = (batchPoints num queries).length) :
    KernelLoops.plain.grid num d (queries.flatMap ChunkQuery.metas)
        (queries.flatMap ChunkQuery.floats) (startOffsets 0 queries) () olds =
      some (.ok (), columns (basePositionSlots d).coords.length (batchPoints num queries)) := by
  have hwrites := gridWrites_spec num [] hdim 0 (by simpa using htotal)
  rw [List.nil_append, List.length_nil, ← List.range_eq_range',
    ← length_batchPoints num queries] at hwrites
  have hlen : ∀ v ∈ batchPoints num queries, v.length = (basePositionSlots d).coords.length := by
    intro v hv
    rw [length_of_mem_batchPoints hdim hv, (basePositionSlots d).length_coords]
  have hwrite := writeAll_columns holds hlen holdlen
  rw [KernelLoops.plain_grid, hwrites, Option.bind_some, hwrite, Option.map_some]

/-- **The kernel lays out the grid**: the base slots hold the points of the batch, and the
other slots are as before. -/
theorem runGridInit_spec (num : Numerics) {d : GraphDimension} {queries : List ChunkQuery}
    (hdim : ∀ query ∈ queries, query.dimension = d)
    (htotal : (queries.map ChunkQuery.samples).sum < 2 ^ 32) {p : JobPacket}
    (hp : Encoded queries p) :
    ∃ p', (runGridInit num d).run p = some (.ok (), p') ∧ p'.Wf ∧
      p'.queryCount = p.queryCount ∧
      Holds p' (basePositionSlots d).coords (batchPoints num queries) ∧
      ∀ slot ∉ (basePositionSlots d).coords, p'.view slot = p.view slot := by
  obtain ⟨p₁, hwf₁, hcount₁, hbase₁, hother₁, hrun₁⟩ := runGridInit_run num htotal hp
  have hnd : ([] ++ (basePositionSlots d).coords).Nodup := nodup_basePositionSlots d
  have hnone : Holds p₁ [] [] := by simp [Holds]
  obtain ⟨p', hrun, hwf, hcount, hholds, hother⟩ := withSlices_overwrite hwf₁ hnd hnone hbase₁
    (g := KernelLoops.plain.grid num d (queries.flatMap ChunkQuery.metas)
      (queries.flatMap ChunkQuery.floats) (startOffsets 0 queries) ()) fun olds holds holdlen => by
    simpa [columns] using plain_grid_spec num hdim htotal holds holdlen
  refine ⟨p', ?_, hwf, hcount.trans hcount₁, hholds, fun slot hslot => ?_⟩
  · exact (hrun₁ KernelLoops.plain ()).trans hrun
  · rw [hother slot hslot, hother₁ slot hslot]

end Braids
