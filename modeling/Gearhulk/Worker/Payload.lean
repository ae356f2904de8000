import Gearhulk.Worker.InPack
import Mathlib.Data.Nat.Digits

/-!
# The payloads a worker writes

While a job runs, its function reports to the client through `SendData`, `SendWarning` and
`UpdateStatus`, and the worker announces its functions with the packet `prepFuncOutpack`
builds. None of them writes a separator: each allocates a zero buffer of the exact size and
copies its fields at offsets that leave the zeros in place, so the NULs between the fields
are the buffer's own.

## Main definitions

- `itoa`, `atoi` — `strconv.Itoa` and `strconv.Atoi` on decimal ASCII
- `OutPack` — an outgoing packet
- `sendData`, `sendWarning`, `updateStatus`, `prepFuncOutpack`

## Main results

- `handleDataPayload_eq`, `updateStatus_data`, `prepFuncOutpack_timeout` — the exact bytes.
- `atoi_itoa` — `Atoi` reads back what `Itoa` wrote, for every `int` of the platform.
- `workerPayloads_split` — the payloads split back into their fields at the NULs.
-/

namespace Gearhulk

-- ════════════════════════════════════════════════════════════════════════
-- strconv
-- ════════════════════════════════════════════════════════════════════════

/-- The ASCII decimal digits of `n`, most significant first; `"0"` for zero. -/
def decimalDigits (n : Nat) : Bytes :=
  if n = 0 then [48] else (Nat.digits 10 n).reverse.map fun d => UInt8.ofNat (48 + d)

/-- `strconv.Itoa(n)`: the decimal form of `n`, after a `-` when `n` is negative. -/
def itoa (n : Int) : Bytes :=
  if n < 0 then 45 :: decimalDigits n.natAbs else decimalDigits n.natAbs

/-- The value of a string of ASCII decimal digits. -/
def digitsValue (ds : Bytes) : Nat := ds.foldl (fun acc c => 10 * acc + (c.toNat - 48)) 0

/-- Whether a byte is an ASCII decimal digit. -/
def isDigit (c : UInt8) : Bool := 48 ≤ c.toNat && c.toNat ≤ 57

/-- `strconv.Atoi(s)` with an `int` of `w` bits: an optional sign then at least one decimal
digit, read as an integer. Any other text is a syntax error; a value out of range is a range
error with the nearest bound as its value. -/
def atoi (w : Nat) (s : Bytes) : Int × Option GoError :=
  let (neg, ds) : Bool × Bytes := match s with
    | 45 :: ds => (true, ds)
    | 43 :: ds => (false, ds)
    | ds => (false, ds)
  if ds = [] ∨ ds.any (fun c => !isDigit c) then
    (0, some ⟨"strconv.Atoi: parsing %q: invalid syntax", [s]⟩)
  else
    let v : Int := if neg then -(digitsValue ds : Int) else digitsValue ds
    if v < -(2 ^ (w - 1) : Int) then
      (-(2 ^ (w - 1)), some ⟨"strconv.Atoi: parsing %q: value out of range", [s]⟩)
    else if (2 ^ (w - 1) : Int) ≤ v then
      (2 ^ (w - 1) - 1, some ⟨"strconv.Atoi: parsing %q: value out of range", [s]⟩)
    else (v, none)

theorem decimalDigits_ne_nil (n : Nat) : decimalDigits n ≠ [] := by
  unfold decimalDigits
  split_ifs with h
  · simp
  · simpa using Nat.digits_ne_nil_iff_ne_zero.mpr h

theorem isDigit_of_mem_decimalDigits {n : Nat} {c : UInt8} (h : c ∈ decimalDigits n) :
    isDigit c = true := by
  unfold decimalDigits at h
  split_ifs at h
  · simp at h; subst h; decide
  · simp only [List.mem_map, List.mem_reverse] at h
    obtain ⟨d, hd, rfl⟩ := h
    have := Nat.digits_lt_base (by norm_num) hd
    simp [isDigit, Nat.mod_eq_of_lt (by omega : 48 + d < 2 ^ 8)]
    omega

/-- Reading decimal digits written as ASCII, least significant first, is `Nat.ofDigits`. -/
theorem foldr_ascii_digits (L : List Nat) (hL : ∀ d ∈ L, d < 10) :
    L.foldr (fun d acc => 10 * acc + ((UInt8.ofNat (48 + d)).toNat - 48)) 0 =
      Nat.ofDigits 10 L := by
  induction L with
  | nil => rfl
  | cons d L ih =>
    have hd := hL d (List.mem_cons_self d L)
    rw [List.foldr_cons, ih fun e he => hL e (List.mem_cons_of_mem d he), Nat.ofDigits_cons,
      toNat_uint8OfNat, Nat.mod_eq_of_lt (by omega)]
    omega

theorem digitsValue_decimalDigits (n : Nat) : digitsValue (decimalDigits n) = n := by
  unfold decimalDigits digitsValue
  split_ifs with h
  · subst h; rfl
  · rw [List.foldl_map, List.foldl_reverse,
      foldr_ascii_digits _ fun d hd => Nat.digits_lt_base (by norm_num) hd, Nat.ofDigits_digits]

theorem decimalDigits_head {n : Nat} {c : UInt8} {cs : Bytes} (h : decimalDigits n = c :: cs) :
    c ≠ 45 ∧ c ≠ 43 := by
  have := isDigit_of_mem_decimalDigits (h ▸ List.mem_cons_self c cs)
  constructor <;> rintro rfl <;> exact absurd this (by decide)

theorem any_not_isDigit_decimalDigits (m : Nat) :
    (decimalDigits m).any (fun c => !isDigit c) = false := by
  simpa using fun c hc => isDigit_of_mem_decimalDigits (n := m) (c := c) hc

/-- `Atoi` reads back the digits of a value below the positive bound. -/
theorem atoi_decimalDigits {w m : Nat} (h : (m : Int) < 2 ^ (w - 1)) :
    atoi w (decimalDigits m) = ((m : Int), none) := by
  obtain ⟨c, cs, hcs⟩ := List.exists_cons_of_ne_nil (decimalDigits_ne_nil m)
  obtain ⟨h45, h43⟩ := decimalDigits_head hcs
  have hdig := any_not_isDigit_decimalDigits m
  have hval := digitsValue_decimalDigits m
  rw [hcs] at hdig hval ⊢
  have hp : (0 : Int) < 2 ^ (w - 1) := pow_pos (by decide) _
  simp [atoi, h45, h43, hdig, hval]
  rw [if_neg (by omega), if_neg (by omega)]

/-- `Atoi` reads back a `-` and the digits of a value above the negative bound. -/
theorem atoi_neg_decimalDigits {w m : Nat} (h : -(2 ^ (w - 1) : Int) ≤ -(m : Int)) :
    atoi w (45 :: decimalDigits m) = (-(m : Int), none) := by
  have hp : (0 : Int) < 2 ^ (w - 1) := pow_pos (by decide) _
  simp [atoi, decimalDigits_ne_nil, any_not_isDigit_decimalDigits, digitsValue_decimalDigits,
    show ¬ (2 : Int) ^ (w - 1) < m by omega, show ¬ (2 : Int) ^ (w - 1) ≤ -m by omega]

/-- `Atoi` reads back what `Itoa` wrote, for every value of a `w`-bit `int`. -/
theorem atoi_itoa {w : Nat} {n : Int} (h0 : -(2 ^ (w - 1) : Int) ≤ n) (h1 : n < 2 ^ (w - 1)) :
    atoi w (itoa n) = (n, none) := by
  unfold itoa
  split_ifs with hn
  · rw [atoi_neg_decimalDigits (by omega), Int.ofNat_natAbs_of_nonpos (by omega), Int.neg_neg]
  · rw [atoi_decimalDigits (by omega), Int.natAbs_of_nonneg (by omega)]

-- ════════════════════════════════════════════════════════════════════════
-- Outgoing payloads
-- ════════════════════════════════════════════════════════════════════════

/-- An outgoing packet (`outPack`): its type, its payload and, for a job's result, the handle
it answers. -/
structure OutPack where
  dataType : PT
  data : Bytes := []
  handle : Bytes := []
  deriving DecidableEq, Repr

/-- The payload of `SendData` and `SendWarning`: a zero buffer of `len(handle) + len(data) + 1`
bytes, `handle` copied at `0` and `data` at `len(handle) + 1`. -/
def handleDataPayload (handle data : Bytes) : Bytes :=
  copyAt (copyAt (newBuffer (handle.length + data.length + 1)) 0 handle) (handle.length + 1) data

/-- `inPack.SendData`: a `WORK_DATA` packet. -/
def sendData (inpack : InPack) (data : Bytes) : OutPack :=
  { dataType := PT.workData, data := handleDataPayload inpack.handle data }

/-- `inPack.SendWarning`: a `WORK_WARNING` packet. -/
def sendWarning (inpack : InPack) (data : Bytes) : OutPack :=
  { dataType := PT.workWarning, data := handleDataPayload inpack.handle data }

/-- `inPack.UpdateStatus`: a `WORK_STATUS` packet, a zero buffer of `hl + nl + dl + 2` bytes
with the handle at `0`, `Itoa(numerator)` at `hl + 1` and `Itoa(denominator)` at
`hl + nl + 2`. -/
def updateStatus (inpack : InPack) (numerator denominator : Int) : OutPack :=
  let n := itoa numerator
  let d := itoa denominator
  let hl := inpack.handle.length
  { dataType := PT.workStatus
    data := copyAt (copyAt (copyAt (newBuffer (hl + n.length + d.length + 2)) 0 inpack.handle)
      (hl + 1) n) (hl + n.length + 2) d }

/-- `prepFuncOutpack`: `CAN_DO funcname` without a timeout; with one, `CAN_DO_TIMEOUT` and a
zero buffer of `len + 5` bytes holding the name, the NUL at `len`, and the big-endian
timeout at `len + 1`. -/
def prepFuncOutpack (funcname : Bytes) (timeout : UInt32) : OutPack :=
  if timeout = 0 then { dataType := PT.canDo, data := funcname }
  else
    let l := funcname.length
    let buf := (copyAt (newBuffer (l + 5)) 0 funcname).set l nul
    { dataType := PT.canDoTimeout, data := copyAt buf (l + 1) (bigEndianPutUint32 timeout) }

theorem handleDataPayload_eq (handle data : Bytes) :
    handleDataPayload handle data = handle ++ nul :: data := by
  rw [handleDataPayload, Nat.add_assoc, copyAt_newBuffer_zero, ← Nat.add_zero data.length,
    copyAt_after_nul handle data 0]
  simp [newBuffer]

/-- The three fields `UpdateStatus` lays out in its zero buffer. -/
theorem copyAt_three_fields (h a b : Bytes) :
    copyAt (copyAt (copyAt (newBuffer (h.length + a.length + b.length + 2)) 0 h)
      (h.length + 1) a) (h.length + a.length + 2) b = h ++ nul :: (a ++ nul :: b) := by
  rw [show h.length + a.length + b.length + 2 = h.length + (a.length + (b.length + 1) + 1) by omega,
    copyAt_newBuffer_zero, copyAt_after_nul,
    show h ++ nul :: (a ++ newBuffer (b.length + 1)) =
      (h ++ nul :: a) ++ newBuffer (b.length + 0 + 1)
      by simp,
    show h.length + a.length + 2 = (h ++ nul :: a).length + 1 by simp; omega,
    copyAt_after_nul _ b 0]
  simp [newBuffer]

theorem updateStatus_data (inpack : InPack) (n d : Int) :
    (updateStatus inpack n d).data = inpack.handle ++ nul :: (itoa n ++ nul :: itoa d) :=
  copyAt_three_fields _ _ _

theorem prepFuncOutpack_timeout (funcname : Bytes) {t : UInt32} (ht : t ≠ 0) :
    prepFuncOutpack funcname t =
      { dataType := PT.canDoTimeout, data := funcname ++ nul :: bigEndianPutUint32 t } := by
  have hset : (funcname ++ newBuffer 5).set funcname.length nul =
      funcname ++ newBuffer ((bigEndianPutUint32 t).length + 0 + 1) := by
    simp [newBuffer, nul, List.replicate_succ]
  simp only [prepFuncOutpack, ht, if_false, copyAt_newBuffer_zero, hset,
    copyAt_after_nul funcname (bigEndianPutUint32 t) 0]
  simp [newBuffer]

theorem nul_not_mem_itoa (n : Int) : nul ∉ itoa n := by
  have hd : nul ∉ decimalDigits n.natAbs := fun h => by
    simpa [nul, isDigit] using isDigit_of_mem_decimalDigits h
  unfold itoa
  split_ifs <;> simp_all [nul]

theorem length_handleDataPayload (handle data : Bytes) :
    (handleDataPayload handle data).length = handle.length + data.length + 1 := by
  simp [handleDataPayload_eq]; omega

theorem splitN_handleDataPayload {handle : Bytes} (h : nul ∉ handle) (data : Bytes) :
    splitN nul 2 (handleDataPayload handle data) = [handle, data] := by
  rw [handleDataPayload_eq, splitN_succ_succ_append _ 0 h, splitN_one]

/-- For every packet `decodeInPack` returns without error, `JOB_ASSIGN` and
`JOB_ASSIGN_UNIQ` among them, the payloads a running job writes split back at their NULs into
exactly the fields they were built from: `SendData` and `SendWarning` into the handle and the
data, `UpdateStatus` into the handle and the two numbers, which `Atoi` reads back. The
`CAN_DO_TIMEOUT` payload is the name, a NUL and the big-endian timeout. -/
theorem workerPayloads_split {w : Nat} {newPT : UInt32 → PT × Option GoError} {packet : Bytes}
    {inpack : InPack} {l : Int} (hw : 32 ≤ w)
    (hd : decodeInPack w newPT packet = .returned (some inpack) l none) :
    (∀ data : Bytes,
      (sendData inpack data).data.length = inpack.handle.length + data.length + 1 ∧
      splitN nul 2 (sendData inpack data).data = [inpack.handle, data] ∧
      (sendWarning inpack data).data.length = inpack.handle.length + data.length + 1 ∧
      splitN nul 2 (sendWarning inpack data).data = [inpack.handle, data]) ∧
    (∀ numerator denominator : Int,
      -(2 ^ (w - 1) : Int) ≤ numerator → numerator < 2 ^ (w - 1) →
      -(2 ^ (w - 1) : Int) ≤ denominator → denominator < 2 ^ (w - 1) →
      (updateStatus inpack numerator denominator).data.length =
        inpack.handle.length + (itoa numerator).length + (itoa denominator).length + 2 ∧
      split nul (updateStatus inpack numerator denominator).data =
        [inpack.handle, itoa numerator, itoa denominator] ∧
      atoi w (itoa numerator) = (numerator, none) ∧
      atoi w (itoa denominator) = (denominator, none)) ∧
    (∀ (funcname : Bytes) (t : UInt32), t ≠ 0 →
      (prepFuncOutpack funcname t).data = funcname ++ nul :: bigEndianPutUint32 t ∧
      (prepFuncOutpack funcname t).data.length = funcname.length + 5) := by
  have hh : nul ∉ inpack.handle := by
    obtain ⟨-, -, pt, -, hi, -⟩ := decodeInPack_eq_returned_nil hw hd
    cases hi
    exact nul_not_mem_assignFields_handle _ _
  refine ⟨fun data => ?_, fun n d hn0 hn1 hd0 hd1 => ?_, fun funcname t ht => ?_⟩
  · simp only [sendData, sendWarning, length_handleDataPayload, splitN_handleDataPayload hh,
      and_self]
  · refine ⟨by simp [updateStatus_data]; omega, ?_, atoi_itoa hn0 hn1, atoi_itoa hd0 hd1⟩
    rw [updateStatus_data, split_append_cons _ hh, split_append_cons _ (nul_not_mem_itoa n),
      split_of_not_mem (nul_not_mem_itoa d)]
  · rw [prepFuncOutpack_timeout funcname ht]
    exact ⟨rfl, by simp⟩

theorem workerPayloads_split_jobAssign :
    32 ≤ 64 ∧ decodeInPack 64 newPT (frame resMagic 11 (assignPayload [104] [102] [100])) =
      .returned (some { dataType := PT.jobAssign, handle := [104], fn := [102], data := [100] })
        (minPacketLength + (assignPayload [104] [102] [100]).length) none ∧
      splitN nul 2 (sendData ⟨PT.jobAssign, [100], [104], [], [102]⟩ [7]).data =
        [[104], [7]] := by
  have hd : decodeInPack 64 newPT (frame resMagic 11 (assignPayload [104] [102] [100]) ++ []) =
      .returned (some { dataType := PT.jobAssign, handle := [104], fn := [102], data := [100] })
        (minPacketLength + (assignPayload [104] [102] [100]).length) none := by
    rw [@decodeInPack_frame 64 newPT resMagic (assignPayload [104] [102] [100]) [] 11 PT.jobAssign
      (by decide) length_resMagic (by decide) (by decide),
      assignFields_jobAssign (by decide) (by decide)]
  rw [List.append_nil] at hd
  exact ⟨by decide, hd, ((workerPayloads_split (by decide) hd).1 [7]).2.1⟩

end Gearhulk
