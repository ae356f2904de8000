import Mathlib.Data.List.Basic
import Mathlib.Data.UInt

/-!
# Byte strings, packet types and the library calls the worker makes

The worker package of gearhulk manipulates Go byte slices through a handful of
library calls: `bytes.SplitN`/`bytes.Split` with a one-byte separator, `copy`,
and `encoding/binary`'s big-endian 32-bit words. It also uses `pkg/runtime`,
which is not among the sources: the packet type `PT`, `NewPT`, `NewBuffer` and
`MinPacketLength` are modelled here from the spec's wire format.

## Main definitions

- `Bytes` — a Go `[]byte` or `string`, as its list of bytes
- `GoError` — a Go `error`: the format text that built it and its arguments
- `PT`, `newPT` — packet type codes and the constructor that checks them
- `bigEndianUint32`, `bigEndianPutUint32` — `binary.BigEndian.Uint32`/`PutUint32`
- `copyAt` — the destination of `copy(dst[off:], src)`
- `cut`, `splitN`, `split` — `bytes.SplitN`/`bytes.Split` with a one-byte separator
-/

namespace Gearhulk

/-- A Go `[]byte`, or a Go `string` seen as its bytes. -/
abbrev Bytes := List UInt8

/-- The byte `'\x00'` that separates payload fields. -/
def nul : UInt8 := 0

/-- A Go `error` value, kept as the format text of the `fmt.Errorf` (or the text of the
`errors.New`) that built it, with the values it formats. -/
structure GoError where
  format : String
  args : List Bytes := []
  deriving DecidableEq, Repr

-- ════════════════════════════════════════════════════════════════════════
-- pkg/runtime
-- ════════════════════════════════════════════════════════════════════════

/-- Modelled from the spec: `rt.PT`, a packet type, is its 32-bit code. -/
structure PT where
  code : UInt32
  deriving DecidableEq, Repr

namespace PT

/-! Modelled from the spec: the codes of the packet types the worker reads or writes, as
numbered by the Gearman protocol that the spec names as the compatibility target. -/

def canDo : PT := ⟨1⟩
def cantDo : PT := ⟨2⟩
def resetAbilities : PT := ⟨3⟩
def preSleep : PT := ⟨4⟩
def noop : PT := ⟨6⟩
def grabJob : PT := ⟨9⟩
def noJob : PT := ⟨10⟩
def jobAssign : PT := ⟨11⟩
def workStatus : PT := ⟨12⟩
def workComplete : PT := ⟨13⟩
def workFail : PT := ⟨14⟩
def echoReq : PT := ⟨16⟩
def echoRes : PT := ⟨17⟩
def error : PT := ⟨19⟩
def setClientId : PT := ⟨22⟩
def canDoTimeout : PT := ⟨23⟩
def workException : PT := ⟨25⟩
def workData : PT := ⟨28⟩
def workWarning : PT := ⟨29⟩
def jobAssignUniq : PT := ⟨31⟩

end PT

/-- Modelled from the spec: `rt.NewPT` accepts the codes of the protocol's packet types,
`1` to `36`, and refuses every other code with an error. -/
def newPT (cmd : UInt32) : PT × Option GoError :=
  if 1 ≤ cmd.toNat ∧ cmd.toNat ≤ 36 then (⟨cmd⟩, none)
  else (⟨0⟩, some { format := "Invalid packet type" })

/-- Modelled from the spec: a packet is at least its 12-byte header. -/
def minPacketLength : Nat := 12

/-- Modelled from the spec: `rt.NewBuffer(n)` is `n` zero bytes. -/
def newBuffer (n : Nat) : Bytes := List.replicate n 0

-- ════════════════════════════════════════════════════════════════════════
-- encoding/binary
-- ════════════════════════════════════════════════════════════════════════

/-- `binary.BigEndian.Uint32(b)`: the first four bytes of `b`, most significant first. -/
def bigEndianUint32 (b : Bytes) : UInt32 :=
  UInt32.ofNat ((b.getD 0 0).toNat * 2 ^ 24 + (b.getD 1 0).toNat * 2 ^ 16 +
    (b.getD 2 0).toNat * 2 ^ 8 + (b.getD 3 0).toNat)

/-- `binary.BigEndian.PutUint32`: the four bytes `byte(v >> 24)`, `byte(v >> 16)`,
`byte(v >> 8)`, `byte(v)`. -/
def bigEndianPutUint32 (v : UInt32) : Bytes :=
  [UInt8.ofNat (v.toNat / 2 ^ 24), UInt8.ofNat (v.toNat / 2 ^ 16),
    UInt8.ofNat (v.toNat / 2 ^ 8), UInt8.ofNat v.toNat]

@[simp] theorem toNat_uint8OfNat (n : Nat) : (UInt8.ofNat n).toNat = n % 2 ^ 8 := by
  simp [UInt8.toNat, UInt8.ofNat]

@[simp] theorem toNat_uint32OfNat (n : Nat) : (UInt32.ofNat n).toNat = n % 2 ^ 32 := by
  simp [UInt32.toNat, UInt32.ofNat]

@[simp] theorem length_bigEndianPutUint32 (v : UInt32) : (bigEndianPutUint32 v).length = 4 := rfl

/-- Reading back the four bytes `PutUint32` wrote gives the word. -/
@[simp] theorem bigEndianUint32_put (v : UInt32) :
    bigEndianUint32 (bigEndianPutUint32 v) = v := by
  have hv : v.toNat < 2 ^ 32 := v.toNat_lt_size
  apply UInt32.toNat.inj
  simp only [bigEndianPutUint32, bigEndianUint32, List.getD_cons_zero, List.getD_cons_succ,
    toNat_uint8OfNat, toNat_uint32OfNat]
  omega

-- ════════════════════════════════════════════════════════════════════════
-- copy
-- ════════════════════════════════════════════════════════════════════════

/-- The destination of `copy(dst[off:], src)`: `src` written over `dst` from index `off`,
cut at the end of `dst`. -/
def copyAt (dst : Bytes) (off : Nat) (src : Bytes) : Bytes :=
  dst.take off ++ (src.take (dst.length - off) ++ (dst.drop off).drop src.length)

/-- When `src` fits, `copy` replaces exactly `src.length` bytes from `off`. -/
theorem copyAt_of_le {dst src : Bytes} {off : Nat} (h : off + src.length ≤ dst.length) :
    copyAt dst off src = dst.take off ++ src ++ dst.drop (off + src.length) := by
  rw [copyAt, List.take_of_length_le (l := src) (by omega), List.drop_drop, List.append_assoc]

/-- Copying `src` to the front of a zero buffer with `k` bytes to spare. -/
theorem copyAt_newBuffer_zero (src : Bytes) (k : Nat) :
    copyAt (newBuffer (src.length + k)) 0 src = src ++ newBuffer k := by
  rw [copyAt_of_le (by simp [newBuffer])]
  simp [newBuffer, List.drop_replicate]

/-- Copying `src` right after the first zero that follows `x`, in a zero tail with `k`
bytes to spare: the zero stays and becomes a separator. -/
theorem copyAt_after_nul (x src : Bytes) (k : Nat) :
    copyAt (x ++ newBuffer (src.length + k + 1)) (x.length + 1) src =
      x ++ nul :: (src ++ newBuffer k) := by
  have h1 : (newBuffer (src.length + k + 1)).take 1 = [nul] := by
    rw [newBuffer, List.take_replicate, Nat.min_eq_left (by omega)]; rfl
  have h2 : (newBuffer (src.length + k + 1)).drop (1 + src.length) = newBuffer k := by
    simp only [newBuffer, List.drop_replicate]; congr 1; omega
  rw [copyAt_of_le (by simp [newBuffer]; omega), List.take_append, h1, Nat.add_assoc,
    List.drop_append, h2]
  simp

-- ════════════════════════════════════════════════════════════════════════
-- bytes.SplitN and bytes.Split with a one-byte separator
-- ════════════════════════════════════════════════════════════════════════

/-- `bytes.Cut(s, []byte{sep})`: the bytes before the first `sep` and those after it. -/
def cut (sep : UInt8) : Bytes → Option (Bytes × Bytes)
  | [] => none
  | b :: s => if b = sep then some ([], s) else (cut sep s).map fun p => (b :: p.1, p.2)

/-- `bytes.SplitN(s, []byte{sep}, n)` for `n ≥ 0`: at most `n` pieces, cut at the first
separators, the last piece the unsplit rest. (`genSplit` also lowers `n` to `len(s) + 1`,
which cannot change the pieces.) -/
def splitN (sep : UInt8) : Nat → Bytes → List Bytes
  | 0, _ => []
  | 1, s => [s]
  | n + 2, s =>
    match cut sep s with
    | none => [s]
    | some (x, y) => x :: splitN sep (n + 1) y

/-- `bytes.Split(s, []byte{sep})`: `genSplit` with `n = Count(s, sep) + 1`. -/
def split (sep : UInt8) (s : Bytes) : List Bytes := splitN sep (s.count sep + 1) s

@[simp] theorem cut_of_not_mem {sep : UInt8} {s : Bytes} (h : sep ∉ s) : cut sep s = none := by
  induction s with
  | nil => rfl
  | cons b s ih =>
    simp only [List.mem_cons, not_or] at h
    simp [cut, Ne.symm h.1, ih h.2]

@[simp] theorem cut_append_cons {sep : UInt8} {x : Bytes} (y : Bytes) (h : sep ∉ x) :
    cut sep (x ++ sep :: y) = some (x, y) := by
  induction x with
  | nil => simp [cut]
  | cons b x ih =>
    simp only [List.mem_cons, not_or] at h
    simp [cut, Ne.symm h.1, ih h.2]

@[simp] theorem splitN_one (sep : UInt8) (s : Bytes) : splitN sep 1 s = [s] := rfl

@[simp] theorem splitN_succ_succ_of_not_mem {sep : UInt8} {s : Bytes} (n : Nat) (h : sep ∉ s) :
    splitN sep (n + 2) s = [s] := by
  simp [splitN, h]

@[simp] theorem splitN_succ_succ_append {sep : UInt8} {x : Bytes} (y : Bytes) (n : Nat)
    (h : sep ∉ x) : splitN sep (n + 2) (x ++ sep :: y) = x :: splitN sep (n + 1) y := by
  simp [splitN, h]

/-- A piece `splitN` returns before the last one holds no separator. -/
theorem not_mem_of_cut {sep : UInt8} {s x y : Bytes} (h : cut sep s = some (x, y)) :
    sep ∉ x ∧ s = x ++ sep :: y := by
  induction s generalizing x y with
  | nil => simp [cut] at h
  | cons b s ih =>
    by_cases hb : b = sep
    · subst hb
      simp only [cut, if_true, Option.some.injEq, Prod.mk.injEq] at h
      obtain ⟨rfl, rfl⟩ := h
      simp
    · simp only [cut, hb, if_false, Option.map_eq_some'] at h
      obtain ⟨⟨x', y'⟩, hc, he⟩ := h
      simp only [Prod.mk.injEq] at he
      obtain ⟨rfl, rfl⟩ := he
      obtain ⟨h1, h2⟩ := ih hc
      simp [h1, h2, Ne.symm hb]

/-- The first piece of a split never holds the separator. -/
theorem not_mem_head_splitN {sep : UInt8} {n : Nat} {s x : Bytes} {rest : List Bytes}
    (h : splitN sep (n + 2) s = x :: rest) (hr : rest ≠ []) : sep ∉ x := by
  unfold splitN at h
  split at h
  · simp only [List.cons.injEq] at h
    exact absurd h.2.symm hr
  · next x' y' hc =>
    simp only [List.cons.injEq] at h
    exact h.1 ▸ (not_mem_of_cut hc).1

/-- `Split` of fields with no separator inside gives back exactly those fields. -/
theorem split_append_cons {sep : UInt8} {x : Bytes} (y : Bytes) (h : sep ∉ x) :
    split sep (x ++ sep :: y) = x :: split sep y := by
  have hc : (x ++ sep :: y).count sep + 1 = y.count sep + 2 := by
    simp [List.count_append, List.count_eq_zero_of_not_mem h]
  rw [split, hc, splitN_succ_succ_append y _ h]
  rfl

theorem split_of_not_mem {sep : UInt8} {s : Bytes} (h : sep ∉ s) : split sep s = [s] := by
  simp [split, List.count_eq_zero_of_not_mem h]

theorem cut_eq_none {sep : UInt8} {s : Bytes} (h : cut sep s = none) : sep ∉ s := by
  induction s with
  | nil => simp
  | cons b s ih =>
    by_cases hb : b = sep
    · simp [cut, hb] at h
    · simp only [cut, hb, if_false, Option.map_eq_none'] at h
      simp [Ne.symm hb, ih h]

/-- Cutting at the first separator takes one separator away. -/
theorem count_of_cut {sep : UInt8} {s x y : Bytes} (h : cut sep s = some (x, y)) :
    s.count sep = y.count sep + 1 := by
  obtain ⟨hx, rfl⟩ := not_mem_of_cut h
  rw [List.count_append, List.count_eq_zero_of_not_mem hx, List.count_cons_self, Nat.zero_add]

theorem length_splitN {sep : UInt8} : ∀ (n : Nat) (s : Bytes), s.count sep < n →
    (splitN sep n s).length = s.count sep + 1
  | 0, _, h => absurd h (Nat.not_lt_zero _)
  | 1, s, h => by rw [splitN_one]; simp; omega
  | n + 2, s, h => by
    cases hc : cut sep s with
    | none => simp [splitN, hc, List.count_eq_zero_of_not_mem (cut_eq_none hc)]
    | some q =>
      have hcount := count_of_cut hc
      simp only [splitN, hc, List.length_cons]
      rw [length_splitN (n + 1) q.2 (by omega)]; omega

end Gearhulk
