import Mathlib.Algebra.Group.Nat.Defs
import Mathlib.Data.List.Flatten
import Mathlib.Tactic.Common

/-!
# Reading and Writing Bytes

Little-endian numbers, and readers that consume bytes from the front of a list and may fail.

A reader is exact for a writer when it reads a value precisely from the bytes that the
writer makes of the value, whatever follows: `Exact`. The rules put exact readers together:
one reader after another (`Exact.bind_eq_ok`), a reader whose values are converted
(`Exact.convert`), and one reader several times (`Exact.many`).
-/

namespace Bytes

/-! ### Little-endian numbers -/

/-- The lowest `width` bytes of a number, the lowest first. -/
def toLe : ℕ → ℕ → List UInt8
  | 0, _ => []
  | width + 1, n => UInt8.ofNat n :: toLe width (n / 256)

/-- The number with the given bytes. -/
def ofLe : List UInt8 → ℕ
  | [] => 0
  | b :: bytes => b.toNat + 256 * ofLe bytes

@[simp] theorem length_toLe (width n : ℕ) : (toLe width n).length = width := by
  induction width generalizing n with
  | zero => rfl
  | succ width ih => simp [toLe, ih]

/-- Reading back a number. -/
theorem ofLe_toLe (width n : ℕ) : ofLe (toLe width n) = n % 256 ^ width := by
  induction width generalizing n with
  | zero => simp [toLe, ofLe, Nat.mod_one]
  | succ width ih =>
      rw [toLe, ofLe, ih, Nat.pow_succ', Nat.mod_mul]
      simp

/-- Writing back the bytes of a number. -/
theorem toLe_ofLe (bytes : List UInt8) : toLe bytes.length (ofLe bytes) = bytes := by
  induction bytes with
  | nil => rfl
  | cons b bytes ih =>
      have hb : b.toNat < 256 := b.toNat_lt
      have hdiv : (b.toNat + 256 * ofLe bytes) / 256 = ofLe bytes := by omega
      have hmod : UInt8.ofNat (b.toNat + 256 * ofLe bytes) = b := by
        rw [← UInt8.toNat_inj, UInt8.toNat_ofNat']
        change (b.toNat + 256 * ofLe bytes) % 256 = _
        omega
      rw [List.length_cons, toLe, ofLe, hdiv, ih, hmod]

/-- Numbers of `width` bytes. -/
theorem ofLe_lt (bytes : List UInt8) : ofLe bytes < 256 ^ bytes.length := by
  induction bytes with
  | nil => simp [ofLe]
  | cons b bytes ih =>
      have hb : b.toNat < 256 := b.toNat_lt
      rw [ofLe, List.length_cons, Nat.pow_succ]
      omega

/-! ### Readers -/

/-- Read a value from the front of some bytes, with the bytes that follow it, or fail. -/
structure Reader (ε α : Type) where
  run : List UInt8 → Except ε (α × List UInt8)

namespace Reader

variable {ε α β : Type}

/-- One reader after another. -/
def bind (r : Reader ε α) (f : α → Reader ε β) : Reader ε β where
  run bytes :=
    match r.run bytes with
    | .ok (a, rest) => (f a).run rest
    | .error e => .error e

instance : Monad (Reader ε) where
  pure a := ⟨fun bytes => .ok (a, bytes)⟩
  bind := Reader.bind

/-- Convert the value that was read. -/
def convert (r : Reader ε α) (f : α → Except ε β) : Reader ε β where
  run bytes :=
    match r.run bytes with
    | .ok (a, rest) => (f a).map fun b => (b, rest)
    | .error e => .error e

/-- Read `n` bytes, or fail with `e` if there are fewer. -/
def exactly (e : ε) (n : ℕ) : Reader ε (List UInt8) where
  run bytes := if bytes.length < n then .error e else .ok (bytes.take n, bytes.drop n)

/-- Read `n` values. -/
def many (r : Reader ε α) : ℕ → Reader ε (List α)
  | 0 => pure []
  | n + 1 => do
      let a ← r
      let l ← many r n
      return a :: l

@[simp] theorem run_pure (a : α) (bytes : List UInt8) :
    (pure a : Reader ε α).run bytes = .ok (a, bytes) := rfl

/-- Both readers of a sequence read. -/
theorem bind_eq_ok {r : Reader ε α} {f : α → Reader ε β} {bytes rest : List UInt8} {b : β} :
    (r >>= f).run bytes = .ok (b, rest) ↔
      ∃ a mid, r.run bytes = .ok (a, mid) ∧ (f a).run mid = .ok (b, rest) := by
  change (match r.run bytes with
    | .ok (a, mid) => (f a).run mid
    | .error e => .error e) = _ ↔ _
  cases h : r.run bytes with
  | error e => simp
  | ok x =>
      constructor
      · exact fun hb => ⟨x.1, x.2, rfl, hb⟩
      · rintro ⟨a, mid, hx, hb⟩
        obtain rfl := Except.ok.inj hx
        exact hb

/-- The value that was read can be converted. -/
theorem convert_eq_ok {r : Reader ε α} {f : α → Except ε β} {bytes rest : List UInt8} {b : β} :
    (r.convert f).run bytes = .ok (b, rest) ↔
      ∃ a, r.run bytes = .ok (a, rest) ∧ f a = .ok b := by
  change (match r.run bytes with
    | .ok (a, mid) => (f a).map fun b => (b, mid)
    | .error e => .error e) = _ ↔ _
  cases h : r.run bytes with
  | error e => simp
  | ok x =>
      obtain ⟨a, mid⟩ := x
      change (f a).map (fun b => (b, mid)) = _ ↔ _
      constructor
      · intro hb
        cases hf : f a with
        | error e => simp [hf, Except.map] at hb
        | ok b' =>
            simp only [hf, Except.map, Except.ok.injEq, Prod.mk.injEq] at hb
            obtain ⟨rfl, rfl⟩ := hb
            exact ⟨a, rfl, hf⟩
      · rintro ⟨a', hx, hb⟩
        simp only [Except.ok.injEq, Prod.mk.injEq] at hx
        obtain ⟨rfl, rfl⟩ := hx
        simp [hb, Except.map]

/-- Reading a fixed number of bytes. -/
theorem exactly_eq_ok {e : ε} {n : ℕ} {bytes rest x : List UInt8} :
    (exactly e n).run bytes = .ok (x, rest) ↔ x.length = n ∧ bytes = x ++ rest := by
  change (if bytes.length < n then Except.error e else .ok (bytes.take n, bytes.drop n)) = _ ↔ _
  constructor
  · intro h
    split at h
    · simp at h
    · next hlen =>
        simp only [Except.ok.injEq, Prod.mk.injEq] at h
        obtain ⟨rfl, rfl⟩ := h
        exact ⟨List.length_take_of_le (Nat.not_lt.mp hlen), (List.take_append_drop n bytes).symm⟩
  · rintro ⟨rfl, rfl⟩
    simp

end Reader

/-! ### Exact readers -/

section Exact

variable {ε α β : Type}

/-- A reader reads a value precisely from the bytes written for it. -/
def Exact (r : Reader ε α) (w : α → List UInt8) : Prop :=
  ∀ bytes a rest, r.run bytes = .ok (a, rest) ↔ bytes = w a ++ rest

namespace Exact

variable {r : Reader ε α} {w : α → List UInt8}

/-- An exact reader reads what was written. -/
theorem run (h : Exact r w) (a : α) (rest : List UInt8) :
    r.run (w a ++ rest) = .ok (a, rest) := (h _ _ _).mpr rfl

/-- A sequence that starts with an exact reader. -/
theorem bind_eq_ok (h : Exact r w) {f : α → Reader ε β} {bytes rest : List UInt8} {b : β} :
    (r >>= f).run bytes = .ok (b, rest) ↔
      ∃ a mid, bytes = w a ++ mid ∧ (f a).run mid = .ok (b, rest) := by
  simp only [Reader.bind_eq_ok, h bytes]

/-- Values that are converted, and written after they were converted back. -/
theorem convert (h : Exact r w) {f : α → Except ε β} {g : β → α}
    (hfg : ∀ a b, f a = .ok b ↔ a = g b) : Exact (r.convert f) (fun b => w (g b)) := by
  intro bytes b rest
  rw [Reader.convert_eq_ok]
  constructor
  · rintro ⟨a, ha, hf⟩
    obtain rfl := (hfg a b).mp hf
    exact (h _ _ _).mp ha
  · intro hbytes
    exact ⟨g b, (h _ _ _).mpr hbytes, (hfg _ _).mpr rfl⟩

/-- Several values. -/
theorem many (h : Exact r w) {n : ℕ} {bytes rest : List UInt8} {l : List α} :
    (r.many n).run bytes = .ok (l, rest) ↔ l.length = n ∧ bytes = l.flatMap w ++ rest := by
  induction n generalizing bytes l with
  | zero =>
      rw [Reader.many, Reader.run_pure]
      constructor
      · intro heq
        simp only [Except.ok.injEq, Prod.mk.injEq] at heq
        obtain ⟨rfl, rfl⟩ := heq
        simp
      · rintro ⟨hlen, rfl⟩
        obtain rfl := List.length_eq_zero_iff.mp hlen
        simp
  | succ n ih =>
      rw [Reader.many, h.bind_eq_ok]
      constructor
      · rintro ⟨a, mid, rfl, hrest⟩
        obtain ⟨l', mid', hl', heq⟩ := Reader.bind_eq_ok.mp hrest
        simp only [Reader.run_pure, Except.ok.injEq, Prod.mk.injEq] at heq
        obtain ⟨rfl, rfl⟩ := heq
        obtain ⟨hlen, rfl⟩ := ih.mp hl'
        simp [hlen]
      · rintro ⟨hlen, rfl⟩
        cases l with
        | nil => simp at hlen
        | cons a l =>
            refine ⟨a, l.flatMap w ++ rest, by simp, Reader.bind_eq_ok.mpr ⟨l, rest, ?_, rfl⟩⟩
            exact ih.mpr ⟨by simpa using hlen, rfl⟩

end Exact

/-- Reading a number of fixed width. -/
theorem exact_le {e : ε} {width : ℕ} {f : ℕ → α} {g : α → ℕ}
    (hg : ∀ a, g a < 256 ^ width) (hfg : ∀ a, f (g a) = a)
    (hgf : ∀ n < 256 ^ width, g (f n) = n) :
    Exact ((Reader.exactly e width).convert fun x => .ok (f (ofLe x)))
      (fun a => toLe width (g a)) := by
  intro bytes a rest
  rw [Reader.convert_eq_ok]
  constructor
  · rintro ⟨x, hx, ha⟩
    obtain ⟨hlen, rfl⟩ := Reader.exactly_eq_ok.mp hx
    obtain rfl := Except.ok.inj ha
    have hlt := ofLe_lt x
    rw [hlen] at hlt
    change x ++ rest = toLe width (g (f (ofLe x))) ++ rest
    rw [hgf _ hlt, ← hlen, toLe_ofLe]
  · rintro rfl
    refine ⟨_, Reader.exactly_eq_ok.mpr ⟨length_toLe width (g a), rfl⟩, ?_⟩
    rw [ofLe_toLe, Nat.mod_eq_of_lt (hg a), hfg]

end Exact

end Bytes
