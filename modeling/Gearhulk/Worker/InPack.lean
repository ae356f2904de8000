import Gearhulk.Runtime

/-!
# Decoding the packets a worker receives

`decodeInPack` reads one packet from the front of the bytes an agent has received: the
12-byte header (magic, type code, payload length, both big-endian) and the payload, which
for `JOB_ASSIGN` and `JOB_ASSIGN_UNIQ` is split on NUL into the job's fields.

The function computes with Go's `int`, whose width is the platform's word: `w = 64` on the
usual platforms, `w = 32` on `386` and `arm`. `wrapInt w` is that arithmetic, so one model
covers both. `rt.NewPT` is not among the sources and is a parameter `newPT`.

## Main results

- `decodeInPack_frame`: a framed payload decodes to its type, fields and length.
- `decodeInPack_returns_nil_iff`: when the call returns a nil error, in terms of the header.
- `decodeInPack_panic_iff`: when the call panics — never on 64 bits, on 32 bits exactly when
  the declared length is within 12 of `2^31` or above it.
- `getError_roundtrip`: `getError` reads the code and the text back from `ERROR` data.
-/

namespace Gearhulk

-- ════════════════════════════════════════════════════════════════════════
-- Go's int
-- ════════════════════════════════════════════════════════════════════════

/-- Go's `int` on a platform whose word is `w` bits: a result wraps around to two's
complement. -/
def wrapInt (w : Nat) (x : Int) : Int := x.bmod (2 ^ w)

/-- Adding whole turns of `2^w` does not change a wrapped value. -/
@[simp] theorem wrapInt_add_mul (w : Nat) (x k : Int) :
    wrapInt w (x + ((2 ^ w : Nat) : Int) * k) = wrapInt w x :=
  Int.bmod_add_mul_cancel x _ k

/-- The two powers of two that bound a `w`-bit `int`, for a word of at least 32 bits. -/
theorem two_pow_word {w : Nat} (hw : 32 ≤ w) :
    2 ^ w = 2 * 2 ^ (w - 1) ∧ 2 ^ 31 ≤ 2 ^ (w - 1) := by
  refine ⟨?_, Nat.pow_le_pow_right (by omega) (by omega)⟩
  rw [← Nat.pow_succ', Nat.succ_eq_add_one, Nat.sub_add_cancel (by omega)]

/-- A value in the range of a `w`-bit `int` is held as itself. -/
theorem wrapInt_of_lt {w : Nat} {x : Int} (hw : 0 < w) (h0 : -((2 ^ (w - 1) : Nat) : Int) ≤ x)
    (h1 : x < ((2 ^ (w - 1) : Nat) : Int)) : wrapInt w x = x := by
  have hM : ((2 ^ w : Nat) : Int) = 2 * ((2 ^ (w - 1) : Nat) : Int) := by
    obtain ⟨k, rfl⟩ : ∃ k, w = k + 1 := ⟨w - 1, by omega⟩
    simp only [Nat.pow_succ, Nat.add_sub_cancel]
    push_cast
    omega
  have hpos : (0 : Int) < ((2 ^ (w - 1) : Nat) : Int) := by exact_mod_cast Nat.two_pow_pos _
  unfold wrapInt
  rcases Int.lt_or_le x 0 with hx | hx
  · have hmod : x % ((2 ^ w : Nat) : Int) = x + ((2 ^ w : Nat) : Int) := by
      rw [← Int.add_emod_self, Int.emod_eq_of_lt] <;> omega
    rw [Int.bmod_neg _ _ (by omega), hmod]
    omega
  · have hmod : x % ((2 ^ w : Nat) : Int) = x := Int.emod_eq_of_lt hx (by omega)
    rw [Int.bmod_pos _ _ (by omega), hmod]

/-- A value one turn of `2^w` above the range of a `w`-bit `int` wraps to the value less
`2^w`. -/
theorem wrapInt_of_ge {w : Nat} {x : Int} (hw : 32 ≤ w) (h0 : ((2 ^ (w - 1) : Nat) : Int) ≤ x)
    (h1 : x < 3 * ((2 ^ (w - 1) : Nat) : Int)) : wrapInt w x = x - ((2 ^ w : Nat) : Int) := by
  have hM := (two_pow_word hw).1
  rw [show x = x - ((2 ^ w : Nat) : Int) + ((2 ^ w : Nat) : Int) * 1 by omega, wrapInt_add_mul,
    wrapInt_of_lt (by omega) (by omega) (by omega)]
  omega

-- ════════════════════════════════════════════════════════════════════════
-- inPack and decodeInPack
-- ════════════════════════════════════════════════════════════════════════

/-- The worker's side of a job packet (`inPack`): its type and payload and, for an
assignment, the job's handle, function name and unique id. The agent it came from is
left out. `getInPack()` is the all-default value. -/
structure InPack where
  dataType : PT := ⟨0⟩
  data : Bytes := []
  handle : Bytes := []
  uniqueId : Bytes := []
  fn : Bytes := []
  deriving DecidableEq, Repr

/-- The `switch` at the end of `decodeInPack`: an assignment's payload is split on NUL into
its fields, left empty when there are too few; any other payload is kept whole. -/
def assignFields (inpack : InPack) (dt : Bytes) : InPack :=
  if inpack.dataType = PT.jobAssign then
    match splitN nul 3 dt with
    | [h, f, d] => { inpack with handle := h, fn := f, data := d }
    | _ => inpack
  else if inpack.dataType = PT.jobAssignUniq then
    match splitN nul 4 dt with
    | [h, f, u, d] => { inpack with handle := h, fn := f, uniqueId := u, data := d }
    | _ => inpack
  else { inpack with data := dt }

/-- What one call of `decodeInPack` does: it panics on an out-of-range slice, or returns
`(inpack, l, err)` (`none` standing for `nil`). -/
inductive Decoded where
  | panic
  | returned (inpack : Option InPack) (l : Int) (err : Option GoError)
  deriving DecidableEq, Repr

/-- `decodeInPack(data)` with Go's `int` of `w` bits and `rt.NewPT` given as `newPT`.
`data[12 : dl+12]` panics unless `12 ≤ dl+12 ≤ cap(data)`; the upper bound already holds
after the length check, so only the lower one is tested. -/
def decodeInPack (w : Nat) (newPT : UInt32 → PT × Option GoError) (data : Bytes) : Decoded :=
  if (data.length : Int) < minPacketLength then
    .returned none 0 (some ⟨"Invalid data: %v", [data]⟩)
  else
    let dl := wrapInt w (bigEndianUint32 ((data.drop 8).take 4)).toNat
    let hi := wrapInt w (dl + minPacketLength)
    if (data.length : Int) < hi then
      .returned none 0 (some ⟨"Not enough data: %v", [data]⟩)
    else if hi < minPacketLength then .panic
    else
      let dt := (data.take hi.toNat).drop minPacketLength
      if (dt.length : Int) ≠ dl then
        .returned none 0 (some ⟨"Invalid data: %v", [data]⟩)
      else
        match newPT (bigEndianUint32 ((data.drop 4).take 4)) with
        | (pt, some e) => .returned (some { dataType := pt }) 0 (some e)
        | (pt, none) =>
          .returned (some (assignFields { dataType := pt } dt)) (wrapInt w (dl + minPacketLength))
            none

-- ════════════════════════════════════════════════════════════════════════
-- The header and how decodeInPack reads it
-- ════════════════════════════════════════════════════════════════════════

/-- The type code in a packet's header, bytes 4 to 8. -/
def typeCode (data : Bytes) : UInt32 := bigEndianUint32 ((data.drop 4).take 4)

/-- The payload length a packet's header declares, bytes 8 to 12. -/
def declaredLength (data : Bytes) : Nat := (bigEndianUint32 ((data.drop 8).take 4)).toNat

/-- The payload a header of declared length `L` delimits: bytes `12` to `12 + L`. -/
def framePayload (data : Bytes) : Bytes :=
  (data.take (declaredLength data + minPacketLength)).drop minPacketLength

theorem declaredLength_def (data : Bytes) :
    (bigEndianUint32 ((data.drop 8).take 4)).toNat = declaredLength data := rfl

@[simp] theorem minPacketLength_cast : ((minPacketLength : Nat) : Int) = 12 := rfl

theorem declaredLength_lt (data : Bytes) : declaredLength data < 2 ^ 32 :=
  UInt32.toNat_lt_size _

/-- What a decoded packet is, given its type code accepted or refused by `newPT`. -/
def decodedOf (newPT : UInt32 → PT × Option GoError) (data : Bytes) : Decoded :=
  match newPT (typeCode data) with
  | (pt, some e) => .returned (some { dataType := pt }) 0 (some e)
  | (pt, none) => .returned (some (assignFields { dataType := pt } (framePayload data)))
      (declaredLength data + minPacketLength) none

-- ════════════════════════════════════════════════════════════════════════
-- The wire format, as the spec lays it out
-- ════════════════════════════════════════════════════════════════════════

/-- Modelled from the spec: the magic of a request packet, `\0REQ`. -/
def reqMagic : Bytes := [0, 82, 69, 81]

/-- Modelled from the spec: the magic of a response packet, `\0RES`. -/
def resMagic : Bytes := [0, 82, 69, 83]

/-- Modelled from the spec: a packet on the wire — its 4-byte magic, the big-endian type code
and payload length, then the payload. -/
def frame (magic : Bytes) (t : UInt32) (payload : Bytes) : Bytes :=
  magic ++ bigEndianPutUint32 t ++ bigEndianPutUint32 (UInt32.ofNat payload.length) ++ payload

/-- Modelled from the spec: a `JOB_ASSIGN` payload, `handle NUL fn NUL data`. -/
def assignPayload (handle fn data : Bytes) : Bytes := handle ++ nul :: (fn ++ nul :: data)

/-- Modelled from the spec: a `JOB_ASSIGN_UNIQ` payload, `handle NUL fn NUL uid NUL data`. -/
def assignUniqPayload (handle fn uid data : Bytes) : Bytes :=
  handle ++ nul :: (fn ++ nul :: (uid ++ nul :: data))

theorem length_resMagic : resMagic.length = 4 := rfl

/-- What the spec calls a well-formed packet at the front of `data`: a whole header with one
of the two magics, a type code `newPT` accepts, a declared length the buffer holds, and, for
an assignment, a payload with its 2 (or 3) NUL separators. -/
def HasWellFormedPacket (newPT : UInt32 → PT × Option GoError) (data : Bytes) : Prop :=
  minPacketLength ≤ data.length ∧ (data.take 4 = reqMagic ∨ data.take 4 = resMagic) ∧
    (newPT (typeCode data)).2 = none ∧ declaredLength data + minPacketLength ≤ data.length ∧
    ((newPT (typeCode data)).1 = PT.jobAssign → 2 ≤ (framePayload data).count nul) ∧
    ((newPT (typeCode data)).1 = PT.jobAssignUniq → 3 ≤ (framePayload data).count nul)

-- ════════════════════════════════════════════════════════════════════════
-- Evaluating decodeInPack
-- ════════════════════════════════════════════════════════════════════════

section Decode

variable {w : Nat} {newPT : UInt32 → PT × Option GoError} {data : Bytes}

/-- Fewer than 12 bytes: `Invalid data`. -/
theorem decodeInPack_of_lt (h : data.length < minPacketLength) :
    decodeInPack w newPT data = .returned none 0 (some ⟨"Invalid data: %v", [data]⟩) := by
  rw [decodeInPack, if_pos (by rw [minPacketLength_cast]; simp only [minPacketLength] at h; omega)]

/-- A header whose declared length fits a `w`-bit `int` with room for the header: the call
returns `Not enough data` when the payload is incomplete, and the decoded packet otherwise. -/
theorem decodeInPack_of_fits (hw : 0 < w) (h12 : minPacketLength ≤ data.length)
    (hfit : declaredLength data + minPacketLength < 2 ^ (w - 1)) :
    decodeInPack w newPT data =
      if data.length < declaredLength data + minPacketLength then
        .returned none 0 (some ⟨"Not enough data: %v", [data]⟩)
      else decodedOf newPT data := by
  have hdl : wrapInt w (declaredLength data) = declaredLength data :=
    wrapInt_of_lt hw (by omega) (by exact_mod_cast (by omega : declaredLength data < 2 ^ (w - 1)))
  have hhi : wrapInt w ((declaredLength data : Int) + (minPacketLength : Nat)) =
      declaredLength data + minPacketLength :=
    wrapInt_of_lt hw (by omega) (by exact_mod_cast hfit)
  simp only [decodeInPack, declaredLength_def, hdl, hhi]
  simp only [minPacketLength, Nat.cast_ofNat] at h12 hfit ⊢
  have htoNat : ((declaredLength data : Int) + 12).toNat = declaredLength data + 12 := by omega
  by_cases hlt : data.length < declaredLength data + 12
  · simp [hlt, show ¬ (data.length : Int) < 12 from by omega,
      show (data.length : Int) < declaredLength data + 12 from by omega]
  · have hlen : ((data.take (declaredLength data + 12)).drop 12).length = declaredLength data := by
      simp only [List.length_drop, List.length_take]; omega
    simp only [hlt, if_false, show ¬ (data.length : Int) < 12 from by omega,
      show ¬ (data.length : Int) < declaredLength data + 12 from by omega,
      show ¬ ((declaredLength data : Int) + 12 < 12) from by omega, htoNat, hlen, ne_eq,
      not_true_eq_false]
    rfl

/-- A declared length that leaves no room for the header in a `w`-bit `int`: `dl + 12` wraps
below 12 (through a negative `dl` when the length field is `2^31` or more) and the payload
slice `data[12 : dl+12]` panics. -/
theorem decodeInPack_of_overflow (hw : 32 ≤ w) (h12 : minPacketLength ≤ data.length)
    (hover : 2 ^ (w - 1) ≤ declaredLength data + minPacketLength) :
    decodeInPack w newPT data = .panic := by
  obtain ⟨hW, h31⟩ := two_pow_word hw
  have hL := declaredLength_lt data
  simp only [minPacketLength] at h12 hover
  -- `dl` is the length, or the length less `2^w` when the field does not fit
  have hdl : ∃ dl : Int, wrapInt w (declaredLength data) = dl ∧
      (dl < 0 → -((2 ^ (w - 1) : Nat) : Int) ≤ dl + 12) ∧
      (0 ≤ dl → ((2 ^ (w - 1) : Nat) : Int) ≤ dl + 12 ∧ dl < ((2 ^ (w - 1) : Nat) : Int)) := by
    by_cases hfit : declaredLength data < 2 ^ (w - 1)
    · refine ⟨_, wrapInt_of_lt (by omega) (by omega) (by exact_mod_cast hfit), ?_, ?_⟩ <;> omega
    · refine ⟨_, wrapInt_of_ge hw (by omega) (by omega), ?_, ?_⟩ <;> omega
  obtain ⟨dl, hdl, hdl0, hdl1⟩ := hdl
  -- `dl + 12` wraps below 12 either way
  have hhi : wrapInt w (dl + 12) < 12 := by
    by_cases hneg : dl < 0
    · rw [wrapInt_of_lt (by omega) (by omega) (by omega)]; omega
    · rw [wrapInt_of_ge hw (by omega) (by omega)]; omega
  simp only [decodeInPack, declaredLength_def, hdl, minPacketLength_cast]
  simp [show ¬ (data.length : Int) < 12 from by omega, show ¬ (data.length : Int) <
    wrapInt w (dl + 12) from by omega, hhi]

/-- Everything a nil-error return of `decodeInPack` says about the buffer: a whole header and
payload whose end fits a `w`-bit `int`, a type code `newPT` accepts, and the packet those
give. -/
theorem decodeInPack_eq_returned_nil (hw : 32 ≤ w) {inpack : Option InPack} {l : Int}
    (h : decodeInPack w newPT data = .returned inpack l none) :
    declaredLength data + minPacketLength ≤ data.length ∧
      declaredLength data + minPacketLength < 2 ^ (w - 1) ∧
      ∃ pt, newPT (typeCode data) = (pt, none) ∧
        inpack = some (assignFields { dataType := pt } (framePayload data)) ∧
        l = declaredLength data + minPacketLength := by
  by_cases h12 : data.length < minPacketLength
  · rw [decodeInPack_of_lt h12] at h; simp at h
  by_cases hfit : declaredLength data + minPacketLength < 2 ^ (w - 1)
  · rw [decodeInPack_of_fits (by omega) (by omega) hfit] at h
    split_ifs at h with hlt
    · simp at h
    · unfold decodedOf at h
      rcases hpt : newPT (typeCode data) with ⟨pt, _ | e⟩ <;> simp only [hpt] at h
      · simp only [Decoded.returned.injEq, and_true] at h
        exact ⟨by omega, hfit, pt, rfl, h.1.symm, h.2.symm⟩
      · simp at h
  · rw [decodeInPack_of_overflow hw (by omega) (by omega)] at h; cases h

end Decode

section Frame

variable {magic payload rest : Bytes} {t : UInt32}

theorem length_frame (hm : magic.length = 4) :
    (frame magic t payload).length = minPacketLength + payload.length := by
  simp [frame, hm, minPacketLength]; omega

theorem typeCode_frame (hm : magic.length = 4) : typeCode (frame magic t payload ++ rest) = t := by
  simp [typeCode, frame, List.drop_append_of_le_length, hm, List.drop_left' hm]

theorem declaredLength_frame (hm : magic.length = 4) (hp : payload.length < 2 ^ 32) :
    declaredLength (frame magic t payload ++ rest) = payload.length := by
  have h8 : (magic ++ bigEndianPutUint32 t).length = 8 := by simp [hm]
  simp only [declaredLength, frame, List.append_assoc] at h8 ⊢
  rw [← List.append_assoc magic, List.drop_left' h8]
  simp; omega

theorem framePayload_frame (hm : magic.length = 4) (hp : payload.length < 2 ^ 32) :
    framePayload (frame magic t payload ++ rest) = payload := by
  have h12 : (magic ++ bigEndianPutUint32 t ++
      bigEndianPutUint32 (UInt32.ofNat payload.length)).length = minPacketLength := by
    simp [hm, minPacketLength]
  rw [framePayload, declaredLength_frame hm hp, Nat.add_comm, ← length_frame hm,
    List.take_left, frame]
  exact List.drop_left' h12

end Frame

/-- A framed packet decodes to its type, its payload cut into fields, and its length,
whatever bytes follow it, when its type code is accepted and `12 + len` fits in 31 bits. -/
theorem decodeInPack_frame {w : Nat} {newPT : UInt32 → PT × Option GoError}
    {magic payload rest : Bytes}
    {t : UInt32} {pt : PT} (hw : 32 ≤ w) (hm : magic.length = 4)
    (hp : minPacketLength + payload.length < 2 ^ 31) (ht : newPT t = (pt, none)) :
    decodeInPack w newPT (frame magic t payload ++ rest) =
      .returned (some (assignFields { dataType := pt } payload))
        (minPacketLength + payload.length) none := by
  have h31 := (two_pow_word hw).2
  simp only [minPacketLength] at hp ⊢
  have hp32 : payload.length < 2 ^ 32 := by omega
  have hL := @declaredLength_frame magic payload rest t hm hp32
  have hlen : (frame magic t payload ++ rest).length = 12 + payload.length + rest.length := by
    simp [length_frame hm, minPacketLength]
  rw [decodeInPack_of_fits (by omega) (by simp only [minPacketLength]; omega)
      (by rw [hL]; simp only [minPacketLength]; omega),
    if_neg (by rw [hL]; simp only [minPacketLength]; omega), decodedOf, typeCode_frame hm, ht,
    framePayload_frame hm hp32, hL]
  simp only [Decoded.returned.injEq, true_and, and_true, minPacketLength]; omega

-- ════════════════════════════════════════════════════════════════════════
-- The fields of an assignment
-- ════════════════════════════════════════════════════════════════════════

theorem assignFields_jobAssign {h f d : Bytes} (hh : nul ∉ h) (hf : nul ∉ f) :
    assignFields { dataType := PT.jobAssign } (assignPayload h f d) =
      { dataType := PT.jobAssign, handle := h, fn := f, data := d } := by
  simp [assignFields, assignPayload, hh, hf]

theorem assignFields_jobAssignUniq {h f u d : Bytes} (hh : nul ∉ h) (hf : nul ∉ f)
    (hu : nul ∉ u) :
    assignFields { dataType := PT.jobAssignUniq } (assignUniqPayload h f u d) =
      { dataType := PT.jobAssignUniq, handle := h, fn := f, uniqueId := u, data := d } := by
  simp [assignFields, assignUniqPayload, hh, hf, hu, PT.jobAssign, PT.jobAssignUniq]

theorem assignFields_other {pt : PT} (h1 : pt ≠ PT.jobAssign) (h2 : pt ≠ PT.jobAssignUniq)
    (dt : Bytes) : assignFields { dataType := pt } dt = { dataType := pt, data := dt } := by
  simp [assignFields, h1, h2]

@[simp] theorem assignFields_dataType (pt : PT) (dt : Bytes) :
    (assignFields { dataType := pt } dt).dataType = pt := by
  unfold assignFields; split_ifs <;> (try split) <;> rfl

/-- An assignment payload with too few NULs is dropped whole: `SplitN` gives fewer pieces than
the `switch` asks for, and the handle, function, unique id and data stay empty. -/
theorem assignFields_short {pt : PT} {dt : Bytes}
    (h : pt = PT.jobAssign ∧ dt.count nul < 2 ∨ pt = PT.jobAssignUniq ∧ dt.count nul < 3) :
    assignFields { dataType := pt } dt = { dataType := pt } := by
  rcases h with ⟨rfl, h⟩ | ⟨rfl, h⟩
  · have hlen := @length_splitN nul 3 dt (by omega)
    unfold assignFields
    rw [if_pos rfl]
    split
    · next heq => rw [heq] at hlen; simp at hlen; omega
    · rfl
  · have hlen := @length_splitN nul 4 dt (by omega)
    unfold assignFields
    rw [if_neg (by decide), if_pos rfl]
    split
    · next heq => rw [heq] at hlen; simp at hlen; omega
    · rfl

/-- The handle of a decoded packet never holds a NUL: it is the first field of a split on
NUL, or empty. -/
theorem nul_not_mem_assignFields_handle (pt : PT) (dt : Bytes) :
    nul ∉ (assignFields { dataType := pt } dt).handle := by
  unfold assignFields
  split_ifs
  · split
    · next h f d heq => exact not_mem_head_splitN (n := 1) heq (by simp)
    · simp
  · split
    · next h f u d heq => exact not_mem_head_splitN (n := 2) heq (by simp)
    · simp
  · simp

-- ════════════════════════════════════════════════════════════════════════
-- What decodeInPack accepts, and where it panics
-- ════════════════════════════════════════════════════════════════════════

/-- Decoding inverts the wire format. For a type code `t` that `newPT` accepts, a payload
laid out as the spec says (`handle NUL fn NUL data` for `JOB_ASSIGN`, `handle NUL fn NUL uid
NUL data` for `JOB_ASSIGN_UNIQ`, any bytes otherwise, with NUL-free `handle`, `fn`, `uid`), a
packet of fewer than `2^31` bytes, and any bytes after it, the call returns a nil error,
consumes the packet, and gives back the type and the fields. -/
theorem decodeInPack_roundtrip {w : Nat} {newPT : UInt32 → PT × Option GoError} {t : UInt32}
    {pt : PT} (hw : 32 ≤ w) (ht : newPT t = (pt, none)) (rest : Bytes) :
    (∀ h f d, nul ∉ h → nul ∉ f → pt = PT.jobAssign →
      minPacketLength + (assignPayload h f d).length < 2 ^ 31 →
      decodeInPack w newPT (frame resMagic t (assignPayload h f d) ++ rest) =
        .returned (some { dataType := pt, handle := h, fn := f, data := d })
          (minPacketLength + (assignPayload h f d).length) none) ∧
    (∀ h f u d, nul ∉ h → nul ∉ f → nul ∉ u → pt = PT.jobAssignUniq →
      minPacketLength + (assignUniqPayload h f u d).length < 2 ^ 31 →
      decodeInPack w newPT (frame resMagic t (assignUniqPayload h f u d) ++ rest) =
        .returned (some { dataType := pt, handle := h, fn := f, uniqueId := u, data := d })
          (minPacketLength + (assignUniqPayload h f u d).length) none) ∧
    (∀ payload, pt ≠ PT.jobAssign → pt ≠ PT.jobAssignUniq →
      minPacketLength + payload.length < 2 ^ 31 →
      decodeInPack w newPT (frame resMagic t payload ++ rest) =
        .returned (some { dataType := pt, data := payload })
          (minPacketLength + payload.length) none) := by
  refine ⟨fun h f d hh hf hpt hp => ?_, fun h f u d hh hf hu hpt hp => ?_,
    fun payload h1 h2 hp => ?_⟩
  · subst hpt; rw [decodeInPack_frame hw length_resMagic hp ht, assignFields_jobAssign hh hf]
  · subst hpt; rw [decodeInPack_frame hw length_resMagic hp ht, assignFields_jobAssignUniq hh hf hu]
  · rw [decodeInPack_frame hw length_resMagic hp ht, assignFields_other h1 h2]

theorem decodeInPack_roundtrip_jobAssign :
    32 ≤ 64 ∧ newPT 11 = (PT.jobAssign, none) ∧
      decodeInPack 64 newPT (frame resMagic 11 (assignPayload [104] [102] [0, 100]) ++ [7]) =
        .returned
          (some { dataType := PT.jobAssign, handle := [104], fn := [102], data := [0, 100] })
          (minPacketLength + (assignPayload [104] [102] [0, 100]).length) none :=
  ⟨by decide, by decide, (decodeInPack_roundtrip (by decide) (by decide) [7]).1 [104] [102] [0, 100]
    (by decide) (by decide) rfl (by decide)⟩

section Results

variable {w : Nat} {newPT : UInt32 → PT × Option GoError} {data : Bytes}

/-- `decodeInPack` returns a nil error exactly when the buffer holds the whole payload its
header declares and `newPT` accepts the type code. The magic is never looked at, and an
assignment payload with too few NULs is accepted with its handle, function, unique id and data
all left empty. -/
theorem decodeInPack_returns_nil_iff (hw : 32 ≤ w) (hlen : data.length < 2 ^ (w - 1)) :
    ((∃ inpack l, decodeInPack w newPT data = .returned inpack l none) ↔
      declaredLength data + minPacketLength ≤ data.length ∧ (newPT (typeCode data)).2 = none) ∧
    ∀ inpack l, decodeInPack w newPT data = .returned (some inpack) l none →
      (inpack.dataType = PT.jobAssign ∧ (framePayload data).count nul < 2 ∨
        inpack.dataType = PT.jobAssignUniq ∧ (framePayload data).count nul < 3) →
      inpack.handle = [] ∧ inpack.fn = [] ∧ inpack.uniqueId = [] ∧ inpack.data = [] := by
  refine ⟨⟨fun ⟨inpack, l, h⟩ => ?_, fun ⟨hle, hpt⟩ => ?_⟩, fun inpack l h hshort => ?_⟩
  · obtain ⟨hle, -, pt, hpt, -⟩ := decodeInPack_eq_returned_nil hw h
    exact ⟨hle, by simp [hpt]⟩
  · rw [decodeInPack_of_fits (by omega) (by simp only [minPacketLength] at hle ⊢; omega)
      (by omega), if_neg (by omega)]
    unfold decodedOf
    rcases hq : newPT (typeCode data) with ⟨pt, _ | e⟩
    · exact ⟨_, _, rfl⟩
    · simp [hq] at hpt
  · -- the packet is the split of the payload, which too few NULs leaves whole
    obtain ⟨-, -, pt, -, hin, -⟩ := decodeInPack_eq_returned_nil hw h
    cases hin
    rw [assignFields_dataType] at hshort
    simp [assignFields_short hshort]

end Results

/-- A `JOB_ASSIGN` frame whose payload `A` has no NUL: accepted, with every field empty. -/
theorem decodeInPack_returns_nil_iff_frame :
    32 ≤ 64 ∧ (frame resMagic 11 [65]).length < 2 ^ (64 - 1) ∧
      (((∃ inpack l, decodeInPack 64 newPT (frame resMagic 11 [65]) = .returned inpack l none) ↔
        declaredLength (frame resMagic 11 [65]) + minPacketLength ≤
            (frame resMagic 11 [65]).length ∧
          (newPT (typeCode (frame resMagic 11 [65]))).2 = none) ∧
      ∀ inpack l, decodeInPack 64 newPT (frame resMagic 11 [65]) = .returned (some inpack) l none →
        (inpack.dataType = PT.jobAssign ∧ (framePayload (frame resMagic 11 [65])).count nul < 2 ∨
          inpack.dataType = PT.jobAssignUniq ∧
            (framePayload (frame resMagic 11 [65])).count nul < 3) →
        inpack.handle = [] ∧ inpack.fn = [] ∧ inpack.uniqueId = [] ∧ inpack.data = []) :=
  ⟨by decide, by decide, decodeInPack_returns_nil_iff (by decide) (by decide)⟩

/-- A buffer with the magic `XXXX` and a one-byte `JOB_ASSIGN` payload with no NUL decodes
with a nil error: the decoder checks neither the magic nor the separators. -/
theorem decodeInPack_nil_error_on_malformed :
    ¬ ∀ data, (∃ inpack l, decodeInPack 64 newPT data = .returned inpack l none) →
      HasWellFormedPacket newPT data := by
  intro h
  have hd := @decodeInPack_frame 64 newPT [88, 88, 88, 88] [65] [] 11 PT.jobAssign (by decide) rfl
    (by decide) (by decide)
  exact absurd (h _ ⟨_, _, hd⟩).2.1 (by decide)

section Panic

variable {w : Nat} {newPT : UInt32 → PT × Option GoError} {data : Bytes}

/-- `decodeInPack` panics exactly when the buffer holds a header whose declared length leaves
no room for `+ 12` in a `w`-bit `int`: never for `w = 64`, and on 32 bits for every length
field from `2^31 - 12` up. -/
theorem decodeInPack_panic_iff (hw : 32 ≤ w) :
    decodeInPack w newPT data = .panic ↔
      minPacketLength ≤ data.length ∧ 2 ^ (w - 1) ≤ declaredLength data + minPacketLength := by
  refine ⟨fun h => ?_, fun h => decodeInPack_of_overflow hw h.1 h.2⟩
  by_cases h12 : data.length < minPacketLength
  · rw [decodeInPack_of_lt h12] at h; cases h
  refine ⟨by omega, Nat.not_lt.mp fun hfit => ?_⟩
  rw [decodeInPack_of_fits (by omega) (by omega) hfit] at h
  split_ifs at h
  unfold decodedOf at h
  split at h <;> cases h

end Panic

theorem decodeInPack_panic_iff_32 :
    32 ≤ 32 ∧ (decodeInPack 32 newPT (resMagic ++ [0, 0, 0, 11, 255, 255, 255, 255]) = .panic ↔
      minPacketLength ≤ (resMagic ++ [0, 0, 0, 11, 255, 255, 255, 255]).length ∧
        2 ^ (32 - 1) ≤ declaredLength (resMagic ++ [0, 0, 0, 11, 255, 255, 255, 255]) +
          minPacketLength) :=
  ⟨by decide, decodeInPack_panic_iff (by decide)⟩

/-- On a 32-bit platform a `JOB_ASSIGN` header whose length field is `0xFFFFFFFF` gives
`dl = -1`, passes the length check `len(data) < dl + 12`, and the slice `data[12 : 11]`
panics. -/
theorem decodeInPack_panics_on_32bit (newPT : UInt32 → PT × Option GoError) :
    decodeInPack 32 newPT (resMagic ++ [0, 0, 0, 11, 255, 255, 255, 255]) = .panic :=
  decodeInPack_of_overflow (by decide) (by decide) (by decide)

/-- On a 64-bit platform `decodeInPack` never panics: `dl + 12` is at most `2^32 + 11`. -/
theorem decodeInPack_ne_panic_64 (newPT : UInt32 → PT × Option GoError) (data : Bytes) :
    decodeInPack 64 newPT data ≠ .panic := by
  by_cases h12 : data.length < minPacketLength
  · rw [decodeInPack_of_lt h12]; nofun
  · have hL := declaredLength_lt data
    rw [decodeInPack_of_fits (by decide) (by omega) (by simp only [minPacketLength]; omega)]
    unfold decodedOf
    split_ifs
    · nofun
    · split <;> nofun

/-- A nil-error return consumes the header and the declared payload: `l = 12 + L`, and
`12 ≤ l ≤ len(data)`. -/
theorem decodeInPack_consumed {w : Nat} {newPT : UInt32 → PT × Option GoError} {data : Bytes}
    {inpack : Option InPack} {l : Int} (hw : 32 ≤ w)
    (h : decodeInPack w newPT data = .returned inpack l none) :
    l = minPacketLength + declaredLength data ∧ minPacketLength ≤ l ∧ l ≤ data.length := by
  obtain ⟨hle, -, -, -, -, rfl⟩ := decodeInPack_eq_returned_nil hw h
  simp only [minPacketLength] at hle ⊢
  omega

theorem decodeInPack_consumed_frame :
    32 ≤ 64 ∧ decodeInPack 64 newPT (frame resMagic 16 [1, 2] ++ [3]) =
      .returned (some { dataType := ⟨16⟩, data := [1, 2] }) (minPacketLength + 2) none ∧
      (minPacketLength + 2 : Int) = minPacketLength +
        declaredLength (frame resMagic 16 [1, 2] ++ [3]) ∧
      minPacketLength ≤ (minPacketLength + 2 : Int) ∧
      (minPacketLength + 2 : Int) ≤ (frame resMagic 16 [1, 2] ++ [3]).length := by
  have hd : decodeInPack 64 newPT (frame resMagic 16 [1, 2] ++ [3]) =
      .returned (some { dataType := ⟨16⟩, data := [1, 2] }) (minPacketLength + 2) none := by
    rw [@decodeInPack_frame 64 newPT resMagic [1, 2] [3] 16 ⟨16⟩ (by decide) length_resMagic
      (by decide) (by decide),
      assignFields_other (by decide) (by decide)]
    rfl
  exact ⟨by decide, hd, decodeInPack_consumed (by decide) hd⟩

-- ════════════════════════════════════════════════════════════════════════
-- The data of an `ERROR` packet
-- ════════════════════════════════════════════════════════════════════════

/-- `getError`: the error the data of an `ERROR` packet carries, the code and the text around
its first NUL; data without a NUL is not error data. -/
def getError (data : Bytes) : GoError :=
  match splitN nul 2 data with
  | [code, text] => ⟨"%s: %s", [code, text]⟩
  | _ => ⟨"Not a error data: %v", [data]⟩

/-- `getError` reads back the code and the text of `ERROR` data, the code, a NUL and the text,
for every code without a NUL and every text; the code alone, with no NUL, is not error data. -/
theorem getError_roundtrip {code : Bytes} (hc : nul ∉ code) (text : Bytes) :
    getError (code ++ nul :: text) = ⟨"%s: %s", [code, text]⟩ ∧
      getError code = ⟨"Not a error data: %v", [code]⟩ :=
  ⟨by simp [getError, hc], by simp [getError, hc]⟩

/-- The code `E` with the text `x`. -/
theorem getError_roundtrip_code :
    getError ([69] ++ nul :: [120]) = ⟨"%s: %s", [[69], [120]]⟩ ∧
      getError [69] = ⟨"Not a error data: %v", [[69]]⟩ :=
  getError_roundtrip (by decide) [120]

end Gearhulk
