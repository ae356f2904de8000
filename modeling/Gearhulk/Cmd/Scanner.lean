import Gearhulk.Runtime

/-!
# `runClient`: standard input split at a delimiter

`gearhulk client` reads standard input with a `bufio.Scanner` and submits each non-empty
token as a job. For a delimiter other than a newline, `runClient` gives the scanner its own
split function: the bytes before the first occurrence of the delimiter in the buffered data,
or, at end of input, whatever is left.

The scanner holds the bytes it has read and not yet consumed in a buffer that starts at
`startBufSize` bytes and doubles, up to `bufio.MaxScanTokenSize`; when that buffer is full
and the split function still asks for more, `Scan` stops with `ErrTooLong`.

## Main definitions

- `findDelim`, `clientSplit` — the delimiter search and the split function
- `splitOn`, `tokensOf` — `strings.Split`, and the tokens the split function cuts a whole
  stream into
- `Scanner`, `Scanner.scan`, `scanAll`, `runClientTokens` — the scanner over standard input
  read in chunks, and what `runClient` submits

## Main results

- `runClient_submits_split` — for every chunking of the input, `runClient` submits the
  non-empty pieces of `strings.Split(s, d)`, when each piece with its delimiter fits the
  buffer and the last piece is shorter than it.
- `runClient_loses_full_last_piece` — a last piece of exactly `MaxScanTokenSize` bytes is
  never submitted: `Scan` stops with `ErrTooLong` before it sees the end of input.
- `runClient_tooLong_iff_not_fits` — `runClient` reports an error exactly when a piece does
  not fit, always `ErrTooLong`, after jobs for the first non-empty pieces.
-/

namespace Gearhulk

-- ════════════════════════════════════════════════════════════════════════
-- Delimiters
-- ════════════════════════════════════════════════════════════════════════

/-- `delim` occurs in `data` at position `k`. -/
def OccursAt (delim data : Bytes) (k : Nat) : Prop := delim <+: data.drop k

/-- The loop of `runClient`'s split function, `for j := 0; j <= len(data)-i; j++`: the first
position at which `delim` occurs in `data`. -/
def findDelim (delim : Bytes) : Bytes → Option Nat
  | [] => none
  | data@(_ :: rest) => if delim.isPrefixOf data then some 0 else (findDelim delim rest).map (· + 1)

section Delim

variable {delim : Bytes}

theorem occursAt_cons_succ (x : UInt8) (rest : Bytes) (k : Nat) :
    OccursAt delim (x :: rest) (k + 1) ↔ OccursAt delim rest k := Iff.rfl

theorem not_occursAt_nil (hd : delim ≠ []) (k : Nat) : ¬ OccursAt delim [] k := by
  simpa [OccursAt] using hd

theorem findDelim_cons (x : UInt8) (rest : Bytes) :
    findDelim delim (x :: rest) =
      if delim <+: x :: rest then some 0 else (findDelim delim rest).map (· + 1) := by
  simp [findDelim]

/-- `findDelim` finds the leftmost occurrence. -/
theorem findDelim_eq_some_iff (hd : delim ≠ []) {data : Bytes} {j : Nat} :
    findDelim delim data = some j ↔ OccursAt delim data j ∧ ∀ k < j, ¬ OccursAt delim data k := by
  induction data generalizing j with
  | nil => simp [findDelim, not_occursAt_nil hd]
  | cons x rest ih =>
    rw [findDelim_cons]
    split
    · next h0 =>
      cases j with
      | zero => exact ⟨fun _ => ⟨h0, fun k hk => absurd hk (Nat.not_lt_zero k)⟩, fun _ => rfl⟩
      | succ j => exact ⟨fun h => (by simp at h), fun h => absurd h0 (h.2 0 (Nat.succ_pos j))⟩
    · next h0 =>
      cases j with
      | zero => exact ⟨fun h => (by simp at h), fun h => absurd h.1 h0⟩
      | succ j =>
        simp only [Option.map_eq_some', Nat.add_right_cancel_iff, exists_eq_right, ih,
          occursAt_cons_succ]
        constructor
        · rintro ⟨hj, hk⟩
          refine ⟨hj, fun k hk' => ?_⟩
          cases k with
          | zero => exact h0
          | succ k => exact hk k (by omega)
        · rintro ⟨hj, hk⟩
          exact ⟨hj, fun k hk' => hk (k + 1) (by omega)⟩

theorem findDelim_eq_none_iff (hd : delim ≠ []) {data : Bytes} :
    findDelim delim data = none ↔ ∀ k, ¬ OccursAt delim data k := by
  induction data with
  | nil => simp [findDelim, not_occursAt_nil hd]
  | cons x rest ih =>
    rw [findDelim_cons]
    split
    · next h0 => exact ⟨fun h => (by simp at h), fun h => absurd h0 (h 0)⟩
    · next h0 =>
      simp only [Option.map_eq_none', ih]
      constructor
      · intro h k
        cases k with
        | zero => exact h0
        | succ k => exact h k
      · exact fun h k => h (k + 1)

/-- An occurrence lies within the first `n` bytes exactly when it ends by `n`. -/
theorem occursAt_take (hd : delim ≠ []) {data : Bytes} {n k : Nat} :
    OccursAt delim (data.take n) k ↔ OccursAt delim data k ∧ k + delim.length ≤ n := by
  have hl : 0 < delim.length := List.length_pos.2 hd
  simp only [OccursAt, List.drop_take, List.prefix_take_iff]
  constructor
  · rintro ⟨h, hn⟩; exact ⟨h, by omega⟩
  · rintro ⟨h, hn⟩; exact ⟨h, by omega⟩

theorem findDelim_take_of_le (hd : delim ≠ []) {data : Bytes} {j n : Nat}
    (h : findDelim delim data = some j) (hn : j + delim.length ≤ n) :
    findDelim delim (data.take n) = some j := by
  rw [findDelim_eq_some_iff hd] at h ⊢
  exact ⟨(occursAt_take hd).2 ⟨h.1, hn⟩, fun k hk hocc => h.2 k hk ((occursAt_take hd).1 hocc).1⟩

theorem findDelim_take_of_lt (hd : delim ≠ []) {data : Bytes} {j n : Nat}
    (h : findDelim delim data = some j) (hn : n < j + delim.length) :
    findDelim delim (data.take n) = none := by
  rw [findDelim_eq_some_iff hd] at h
  rw [findDelim_eq_none_iff hd]
  intro k hocc
  obtain ⟨hk, hkn⟩ := (occursAt_take hd).1 hocc
  rcases Nat.lt_or_ge k j with hlt | hge
  · exact h.2 k hlt hk
  · omega

theorem findDelim_take_of_none (hd : delim ≠ []) {data : Bytes} (n : Nat)
    (h : findDelim delim data = none) : findDelim delim (data.take n) = none := by
  rw [findDelim_eq_none_iff hd] at h ⊢
  exact fun k hocc => h k ((occursAt_take hd).1 hocc).1

theorem findDelim_add_le (hd : delim ≠ []) {data : Bytes} {j : Nat}
    (h : findDelim delim data = some j) : j + delim.length ≤ data.length := by
  have := ((findDelim_eq_some_iff hd).1 h).1.length_le
  simp only [List.length_drop] at this
  have hl : 0 < delim.length := List.length_pos.2 hd
  omega

/-- A delimiter whose first byte the data lacks occurs nowhere in it. -/
theorem findDelim_of_not_mem {x : UInt8} {ds data : Bytes} (h : x ∉ data) :
    findDelim (x :: ds) data = none := by
  induction data with
  | nil => rfl
  | cons y rest ih =>
    simp only [List.mem_cons, not_or] at h
    simp [findDelim, List.isPrefixOf, h.1, ih h.2]

end Delim

-- ════════════════════════════════════════════════════════════════════════
-- strings.Split, and the tokens of a whole stream
-- ════════════════════════════════════════════════════════════════════════

/-- `genSplit`'s loop for a non-empty `sep`: cut at the first occurrence of `sep`, then again in
what follows it, at most `n` times. -/
def splitOnN (sep : Bytes) : Nat → Bytes → List Bytes
  | 0, s => [s]
  | n + 1, s =>
    match findDelim sep s with
    | some j => s.take j :: splitOnN sep n (s.drop (j + sep.length))
    | none => [s]

/-- `strings.Split(s, sep)` for a non-empty `sep`. `genSplit` cuts at most `Count(s, sep)`
times, at most `len(s)` times, and stops at the first search that finds nothing; cutting
until then is the same. -/
def splitOn (sep s : Bytes) : List Bytes := splitOnN sep s.length s

theorem splitOnN_fuel {sep : Bytes} (hd : sep ≠ []) :
    ∀ {n m : Nat} {s : Bytes}, s.length ≤ n → s.length ≤ m → splitOnN sep n s = splitOnN sep m s
  | 0, 0, _, _, _ => rfl
  | 0, m + 1, s, hn, _ => by
    rw [List.length_eq_zero.1 (Nat.le_zero.1 hn)]; simp [splitOnN, findDelim]
  | n + 1, 0, s, _, hm => by
    rw [List.length_eq_zero.1 (Nat.le_zero.1 hm)]; simp [splitOnN, findDelim]
  | n + 1, m + 1, s, hn, hm => by
    simp only [splitOnN]
    split
    · next j hj =>
      have := findDelim_add_le hd hj
      have hl : 0 < sep.length := List.length_pos.2 hd
      rw [splitOnN_fuel hd (n := n) (m := m) (by simp; omega) (by simp; omega)]
    · rfl

/-- `strings.Split` cuts at the first occurrence and splits the rest. -/
theorem splitOn_eq {sep : Bytes} (hd : sep ≠ []) (s : Bytes) :
    splitOn sep s = match findDelim sep s with
      | some j => s.take j :: splitOn sep (s.drop (j + sep.length))
      | none => [s] := by
  cases hs : s.length with
  | zero =>
    rw [List.length_eq_zero.1 hs]; simp [splitOn, splitOnN, findDelim]
  | succ n =>
    simp only [splitOn, hs, splitOnN]
    split
    · next j hj =>
      have := findDelim_add_le hd hj
      have hl : 0 < sep.length := List.length_pos.2 hd
      rw [splitOnN_fuel hd (by simp; omega) le_rfl]
    · rfl

theorem splitOn_of_some {sep s : Bytes} (hd : sep ≠ []) {j : Nat} (h : findDelim sep s = some j) :
    splitOn sep s = s.take j :: splitOn sep (s.drop (j + sep.length)) := by
  rw [splitOn_eq hd s, h]

theorem splitOn_of_none {sep s : Bytes} (hd : sep ≠ []) (h : findDelim sep s = none) :
    splitOn sep s = [s] := by
  rw [splitOn_eq hd s, h]

theorem splitOn_ne_nil (sep s : Bytes) : splitOn sep s ≠ [] := by
  unfold splitOn
  cases s.length with
  | zero => simp [splitOnN]
  | succ n => simp only [splitOnN]; split <;> simp

/-- The tokens `runClient`'s split function cuts a whole stream into: the pieces of
`strings.Split`, less a last piece that is empty. -/
def tokensOf (delim s : Bytes) : List Bytes :=
  match (splitOn delim s).getLast? with
  | some [] => (splitOn delim s).dropLast
  | _ => splitOn delim s

theorem tokensOf_nil (delim : Bytes) : tokensOf delim [] = [] := by
  simp [tokensOf, splitOn, splitOnN]

theorem tokensOf_of_some {delim s : Bytes} (hd : delim ≠ []) {j : Nat}
    (h : findDelim delim s = some j) :
    tokensOf delim s = s.take j :: tokensOf delim (s.drop (j + delim.length)) := by
  have hne := splitOn_ne_nil delim (s.drop (j + delim.length))
  unfold tokensOf
  rw [splitOn_eq hd s, h]
  simp only [List.getLast?_cons, List.getLast?_eq_getLast _ hne, Option.getD_some]
  cases (splitOn delim (s.drop (j + delim.length))).getLast hne with
  | nil => simp [List.dropLast_cons_of_ne_nil hne]
  | cons y ys => rfl

theorem tokensOf_of_none {delim s : Bytes} (hd : delim ≠ []) (hs : s ≠ [])
    (h : findDelim delim s = none) : tokensOf delim s = [s] := by
  unfold tokensOf
  rw [splitOn_eq hd s, h]
  cases s with
  | nil => exact absurd rfl hs
  | cons x xs => rfl

/-- Dropping empty tokens, the tokens of a stream are the non-empty pieces of `strings.Split`. -/
theorem filter_tokensOf (delim s : Bytes) :
    (tokensOf delim s).filter (· ≠ []) = (splitOn delim s).filter (· ≠ []) := by
  unfold tokensOf
  split
  · next h =>
    conv_rhs => rw [← List.dropLast_append_getLast? _ h]
    simp
  · rfl

-- ════════════════════════════════════════════════════════════════════════
-- The scanner
-- ════════════════════════════════════════════════════════════════════════

/-- The split function `runClient` gives its scanner for a delimiter other than `"\n"`: at the
first occurrence of the delimiter, the bytes before it and the count through it; at the end of
input, whatever is left; otherwise, a request for more. -/
def clientSplit (delim data : Bytes) (atEOF : Bool) : Nat × Option Bytes :=
  if atEOF ∧ data.length = 0 then (0, none)
  else
    match (if 0 < delim.length then findDelim delim data else none) with
    | some j => (j + delim.length, some (data.take j))
    | none => if atEOF then (data.length, some data) else (0, none)

/-- `bufio.MaxScanTokenSize`: the largest buffer a `Scanner` without `Buffer` grows to. -/
def maxScanTokenSize : Nat := 64 * 1024

/-- `startBufSize`: the size of the first buffer a `Scanner` allocates. -/
def startBufSize : Nat := 4096

/-- The errors a `Scanner` over standard input records: `io.EOF` and `bufio.ErrTooLong`. -/
inductive ScanErr
  | eof
  | tooLong
  deriving DecidableEq, Repr

/-- A `bufio.Scanner` on standard input: `len(buf)`, `start`, the bytes `buf[start:end]` read
and not consumed, `err`, and the data standard input has yet to return, one list per read. -/
structure Scanner where
  bufLen : Nat := 0
  start : Nat := 0
  held : Bytes := []
  err : Option ScanErr := none
  input : List Bytes
  deriving DecidableEq, Repr

/-- `os.Stdin.Read(p)` with `len(p) = n`: the next chunk, or as much of it as fits, the rest
left for the next read; `io.EOF` once nothing is left. -/
def readStdin (n : Nat) : List Bytes → Bytes × List Bytes × Option ScanErr
  | [] => ([], [], some .eof)
  | c :: cs => if c.length ≤ n then (c, cs, none) else (c.take n, c.drop n :: cs, none)

namespace Scanner

/-- `end`, where the held bytes stop. -/
def endPos (s : Scanner) : Nat := s.start + s.held.length

/-- Move the held bytes to the front, when the buffer is full at its end or they start past
its middle. -/
def shift (s : Scanner) : Scanner :=
  if 0 < s.start ∧ (s.endPos = s.bufLen ∨ s.bufLen / 2 < s.start) then { s with start := 0 }
  else s

/-- Grow a full buffer: to `startBufSize` first, then doubling, at most `maxScanTokenSize`. -/
def grow (s : Scanner) : Scanner :=
  if s.endPos = s.bufLen then
    { s with
      bufLen := min (if s.bufLen = 0 then startBufSize else 2 * s.bufLen) maxScanTokenSize
      start := 0 }
  else s

/-- Read into the free end of the buffer. -/
def read (s : Scanner) : Scanner :=
  match readStdin (s.bufLen - s.endPos) s.input with
  | (got, rest, e) => { s with held := s.held ++ got, input := rest, err := e }

/-- `advance(n)`: consume `n` held bytes. -/
def advance (s : Scanner) (n : Nat) : Scanner :=
  { s with start := s.start + n, held := s.held.drop n }

/-- One `Scan()`, at most `fuel` turns of its loop: the token it sets when it returns true, and
the scanner after it. A turn calls the split function when bytes are held or an error is
recorded; without a token it stops on a recorded error, fails with `ErrTooLong` on a full
buffer of the largest size, or shifts, grows and reads. -/
def scan (delim : Bytes) : Nat → Scanner → Option (Option Bytes × Scanner)
  | 0, _ => none
  | fuel + 1, s =>
    match (if s.held = [] ∧ s.err = none then (0, none)
        else clientSplit delim s.held s.err.isSome) with
    | (adv, some tok) => some (some tok, s.advance adv)
    | (adv, none) =>
      let s := s.advance adv
      if s.err.isSome then some (none, { s with start := 0, held := [] })
      else if s.shift.endPos = s.shift.bufLen ∧ maxScanTokenSize ≤ s.shift.bufLen then
        some (none, { s.shift with err := some .tooLong })
      else scan delim fuel s.shift.grow.read

end Scanner

/-- `runClient`'s `for scanner.Scan()` loop, at most `fuel` tokens: the tokens in order, and
what `scanner.Err()` reports after the loop (`io.EOF` is no error). -/
def scanAll (delim : Bytes) : Nat → Scanner → Option (List Bytes × Option ScanErr)
  | 0, _ => none
  | fuel + 1, s =>
    match s.scan delim (fuel + 1) with
    | some (some tok, s') => (scanAll delim fuel s').map fun r => (tok :: r.1, r.2)
    | some (none, s') => some ([], if s'.err = some .eof then none else s'.err)
    | none => none

/-- What `runClient` submits for a delimiter other than a newline when the reads of standard
input return `chunks`: the tokens but the empty ones, and the error it reports after them. -/
def runClientTokens (delim : Bytes) (chunks : List Bytes) (fuel : Nat) :
    Option (List Bytes × Option ScanErr) :=
  (scanAll delim fuel { input := chunks }).map fun r => (r.1.filter (· ≠ []), r.2)

-- ════════════════════════════════════════════════════════════════════════
-- One turn of the loop
-- ════════════════════════════════════════════════════════════════════════

theorem clientSplit_of_some {delim data : Bytes} (hd : delim ≠ []) {j : Nat}
    (h : findDelim delim data = some j) (atEOF : Bool) :
    clientSplit delim data atEOF = (j + delim.length, some (data.take j)) := by
  have hlen := findDelim_add_le hd h
  have hl : 0 < delim.length := List.length_pos.2 hd
  simp only [clientSplit, hl, if_true, h]
  rw [if_neg (by omega)]

theorem clientSplit_of_none {delim data : Bytes} (h : findDelim delim data = none)
    (atEOF : Bool) :
    clientSplit delim data atEOF =
      if atEOF ∧ data ≠ [] then (data.length, some data) else (0, none) := by
  unfold clientSplit
  cases atEOF <;> by_cases h0 : data = [] <;> by_cases hl : 0 < delim.length <;> simp_all

@[simp] theorem readStdin_nil (n : Nat) : readStdin n [] = ([], [], some .eof) := rfl

theorem readStdin_cons_of_le {n : Nat} {c : Bytes} (cs : List Bytes) (h : c.length ≤ n) :
    readStdin n (c :: cs) = (c, cs, none) := if_pos h

theorem readStdin_cons_of_lt {n : Nat} {c : Bytes} (cs : List Bytes) (h : n < c.length) :
    readStdin n (c :: cs) = (c.take n, c.drop n :: cs, none) := if_neg (by omega)

namespace Scanner

/-- The bytes the scanner has yet to turn into tokens: the held ones, then the unread ones. -/
def rest (s : Scanner) : Bytes := s.held ++ s.input.flatten

/-- What each turn of the loop uses up: an unread byte, or the `io.EOF` still to come. -/
def measure (s : Scanner) : Nat := s.input.flatten.length + if s.err = none then 1 else 0

/-- What the scanner keeps between turns: the held bytes fit the buffer, the buffer is at
most `maxScanTokenSize`, every read to come returns a byte, nothing is left after `io.EOF`
and the buffer had room for the read that returned it, and no `ErrTooLong` is recorded. -/
structure Wf (s : Scanner) : Prop where
  end_le : s.endPos ≤ s.bufLen
  buf_le : s.bufLen ≤ maxScanTokenSize
  chunks : ∀ c ∈ s.input, c ≠ []
  eof : s.err = some .eof → s.input = []
  eof_lt : s.err = some .eof → s.held.length < maxScanTokenSize
  not_tooLong : s.err ≠ some .tooLong

variable {s : Scanner}

@[simp] theorem shift_held (s : Scanner) : s.shift.held = s.held := by unfold shift; split <;> rfl
@[simp] theorem shift_input (s : Scanner) : s.shift.input = s.input := by
  unfold shift; split <;> rfl
@[simp] theorem shift_err (s : Scanner) : s.shift.err = s.err := by unfold shift; split <;> rfl
@[simp] theorem shift_bufLen (s : Scanner) : s.shift.bufLen = s.bufLen := by
  unfold shift; split <;> rfl
@[simp] theorem grow_held (s : Scanner) : s.grow.held = s.held := by unfold grow; split <;> rfl
@[simp] theorem grow_input (s : Scanner) : s.grow.input = s.input := by unfold grow; split <;> rfl
@[simp] theorem grow_err (s : Scanner) : s.grow.err = s.err := by unfold grow; split <;> rfl

theorem shift_endPos_le (hw : s.Wf) : s.shift.endPos ≤ s.bufLen := by
  have := hw.end_le
  unfold shift endPos at *
  split
  · show 0 + s.held.length ≤ s.bufLen; omega
  · exact this

/-- After the shift, the buffer is full exactly when the held bytes fill all of it. -/
theorem shift_full_iff (hw : s.Wf) : s.shift.endPos = s.bufLen ↔ s.held.length = s.bufLen := by
  have := hw.end_le
  unfold shift endPos at *
  split
  · show 0 + s.held.length = s.bufLen ↔ _; omega
  · omega

/-- Unless `ErrTooLong` stops it, the shift and the growth leave room to read into. -/
theorem grow_room (hw : s.Wf)
    (hnot : ¬ (s.shift.endPos = s.shift.bufLen ∧ maxScanTokenSize ≤ s.shift.bufLen)) :
    s.shift.grow.endPos < s.shift.grow.bufLen ∧ s.shift.grow.bufLen ≤ maxScanTokenSize := by
  have hle := shift_endPos_le hw
  have hbuf := hw.buf_le
  rw [shift_bufLen] at hnot
  unfold grow
  split
  · next hf =>
    rw [shift_bufLen] at hf
    have hh : s.held.length = s.bufLen := (shift_full_iff hw).1 hf
    have hlt : s.bufLen < maxScanTokenSize := by
      by_contra hge; exact hnot ⟨hf, by omega⟩
    simp only [endPos, shift_held, shift_bufLen, Nat.zero_add, hh]
    refine ⟨Nat.lt_min.2 ⟨?_, hlt⟩, Nat.min_le_right _ _⟩
    split
    · simp [startBufSize, *]
    · omega
  · next hf =>
    rw [shift_bufLen] at hf ⊢
    exact ⟨by omega, hbuf⟩

/-- One read into free room keeps the scanner well formed and keeps what is left to tokenize,
and uses up a byte or the `io.EOF`. -/
theorem read_spec (hroom : s.endPos < s.bufLen) (hbuf : s.bufLen ≤ maxScanTokenSize)
    (hch : ∀ c ∈ s.input, c ≠ []) (herr : s.err = none) :
    s.read.Wf ∧ s.read.rest = s.rest ∧ s.read.measure < s.measure := by
  unfold read
  cases hin : s.input with
  | nil =>
    rw [readStdin_nil]
    refine ⟨⟨?_, hbuf, by simp, fun _ => rfl, fun _ => ?_, by simp⟩, by simp [rest, hin],
      by simp [measure, hin, herr]⟩ <;>
    simp only [endPos, List.append_nil] at hroom ⊢ <;> omega
  | cons c cs =>
    rw [hin] at hch
    have hc : 0 < c.length := List.length_pos.2 (hch c (List.mem_cons_self _ _))
    rcases Nat.lt_or_ge (s.bufLen - s.endPos) c.length with hlt | hle
    · rw [readStdin_cons_of_lt cs hlt]
      refine ⟨⟨?_, hbuf, ?_, by simp, by simp, by simp⟩,
        by simp [rest, hin, ← List.append_assoc (List.take _ c)], ?_⟩
      · simp only [endPos, List.length_append, List.length_take] at hroom ⊢; omega
      · intro x hx
        rcases List.mem_cons.1 hx with rfl | hx
        · simp only [ne_eq, List.drop_eq_nil_iff]; omega
        · exact hch x (List.mem_cons_of_mem _ hx)
      · simp only [measure, hin, herr, List.flatten_cons, List.length_append, List.length_drop,
          if_true]
        omega
    · rw [readStdin_cons_of_le cs hle]
      refine ⟨⟨?_, hbuf, fun x hx => hch x (List.mem_cons_of_mem _ hx), by simp, by simp, by simp⟩,
        by simp [rest, hin], ?_⟩
      · simp only [endPos, List.length_append] at hroom hle ⊢; omega
      · simp only [measure, hin, herr, List.flatten_cons, List.length_append, if_true]
        omega

/-- The rest of a turn after a failed split: shift, grow and read. -/
theorem fill_spec (hw : s.Wf) (herr : s.err = none)
    (hnot : ¬ (s.shift.endPos = s.shift.bufLen ∧ maxScanTokenSize ≤ s.shift.bufLen)) :
    s.shift.grow.read.Wf ∧ s.shift.grow.read.rest = s.rest ∧
      s.shift.grow.read.measure < s.measure := by
  obtain ⟨hroom, hbuf⟩ := grow_room hw hnot
  have h := read_spec hroom hbuf (by simpa using hw.chunks) (by simpa using herr)
  simpa [rest, measure] using h

@[simp] theorem advance_zero (s : Scanner) : s.advance 0 = s := by
  simp [advance]

/-- A turn that finds a token returns it. -/
theorem scan_token {delim : Bytes} {adv : Nat} {tok : Bytes} (fuel : Nat)
    (hs : s.held ≠ [] ∨ s.err ≠ none)
    (h : clientSplit delim s.held s.err.isSome = (adv, some tok)) :
    s.scan delim (fuel + 1) = some (some tok, s.advance adv) := by
  have : ¬ (s.held = [] ∧ s.err = none) := by tauto
  simp only [scan, this, if_false, h]

/-- Without a delimiter in the held bytes and with no error recorded, the split function asks
for more. -/
theorem split_eq_of_none {delim : Bytes} (herr : s.err = none)
    (hf : findDelim delim s.held = none) :
    (if s.held = [] ∧ s.err = none then (0, none)
      else clientSplit delim s.held s.err.isSome) = ((0, none) : Nat × Option Bytes) := by
  split
  · rfl
  · simp [clientSplit_of_none hf, herr]

/-- A turn that finds no delimiter and has no error recorded goes on to read, unless the
buffer is full at its largest. -/
theorem scan_more {delim : Bytes} (fuel : Nat) (herr : s.err = none)
    (hf : findDelim delim s.held = none)
    (hnot : ¬ (s.shift.endPos = s.shift.bufLen ∧ maxScanTokenSize ≤ s.shift.bufLen)) :
    s.scan delim (fuel + 1) = s.shift.grow.read.scan delim fuel := by
  rw [scan, split_eq_of_none herr hf]
  simp only [advance_zero, herr, Option.isSome_none, Bool.false_eq_true, if_false]
  rw [if_neg hnot]

/-- A turn that finds no delimiter in a full buffer of the largest size fails with
`ErrTooLong`. -/
theorem scan_full {delim : Bytes} (fuel : Nat) (herr : s.err = none)
    (hf : findDelim delim s.held = none)
    (hfull : s.shift.endPos = s.shift.bufLen ∧ maxScanTokenSize ≤ s.shift.bufLen) :
    s.scan delim (fuel + 1) = some (none, { s.shift with err := some .tooLong }) := by
  rw [scan, split_eq_of_none herr hf]
  simp only [advance_zero, herr, Option.isSome_none, Bool.false_eq_true, if_false]
  rw [if_pos hfull]

/-- A turn that finds no token after an error ends the `Scan`. -/
theorem scan_stop {delim : Bytes} {adv : Nat} (fuel : Nat) (he : s.err ≠ none)
    (h : clientSplit delim s.held true = (adv, none)) :
    s.scan delim (fuel + 1) = some (none, { s with start := 0, held := [] }) := by
  obtain ⟨e, he⟩ := Option.ne_none_iff_exists'.1 he
  simp [scan, he, h, advance]

-- ════════════════════════════════════════════════════════════════════════
-- The loop of one `Scan`
-- ════════════════════════════════════════════════════════════════════════

theorem held_eq_take_rest (s : Scanner) : s.held = s.rest.take s.held.length := by
  simp [rest]

theorem rest_of_eof (hw : s.Wf) (he : s.err = some .eof) : s.rest = s.held := by
  simp [rest, hw.eof he]

/-- Before the end of input, some byte is yet to be read. -/
theorem Wf.err_eq_none (hw : s.Wf) (h : s.held.length < s.rest.length) : s.err = none :=
  match he : s.err with
  | none => rfl
  | some .eof => absurd h (by rw [rest_of_eof hw he]; exact Nat.lt_irrefl _)
  | some .tooLong => absurd he hw.not_tooLong

/-- A scanner with a buffer's worth of bytes still to tokenize has not seen `io.EOF`. -/
theorem Wf.err_eq_none_of_le (hw : s.Wf) (h : maxScanTokenSize ≤ s.rest.length) : s.err = none := by
  match he : s.err with
  | none => rfl
  | some .eof => have := hw.eof_lt he; rw [rest_of_eof hw he] at h; omega
  | some .tooLong => exact absurd he hw.not_tooLong

/-- A turn uses up a byte still to tokenize, or the `io.EOF` to come. -/
theorem measure_le (s : Scanner) : s.measure ≤ s.rest.length + 1 := by
  have : s.input.flatten.length ≤ s.rest.length := by simp [rest]
  unfold measure; split <;> omega

theorem Wf.advance (hw : s.Wf) {n : Nat} (hn : n ≤ s.held.length) : (s.advance n).Wf := by
  refine ⟨?_, hw.buf_le, hw.chunks, hw.eof, fun he => ?_, hw.not_tooLong⟩
  · have := hw.end_le
    simp only [endPos, Scanner.advance, List.length_drop] at this ⊢
    omega
  · have := hw.eof_lt he
    simp only [Scanner.advance, List.length_drop]
    omega

theorem rest_advance {n : Nat} (hn : n ≤ s.held.length) : (s.advance n).rest = s.rest.drop n := by
  simp [rest, Scanner.advance, List.drop_append_of_le_length hn]

/-- Held bytes shorter than the largest buffer never fill it. -/
theorem not_full_of_lt (hw : s.Wf) (h : s.held.length < maxScanTokenSize) :
    ¬ (s.shift.endPos = s.shift.bufLen ∧ maxScanTokenSize ≤ s.shift.bufLen) := by
  rw [shift_bufLen, shift_full_iff hw]; omega

theorem read_err_of_ne_nil (h : s.input ≠ []) : s.read.err = none := by
  obtain ⟨c, cs, hin⟩ := List.exists_cons_of_ne_nil h
  unfold read; rw [hin]
  rcases Nat.lt_or_ge (s.bufLen - s.endPos) c.length with hlt | hle
  · rw [readStdin_cons_of_lt cs hlt]
  · rw [readStdin_cons_of_le cs hle]

/-- The scanner `bufio.NewScanner(os.Stdin)` makes, on reads that each return a byte. -/
theorem wf_init {chunks : List Bytes} (hc : ∀ c ∈ chunks, c ≠ []) :
    Scanner.Wf { input := chunks } :=
  ⟨by simp [endPos], by simp [maxScanTokenSize], hc, fun h => (nomatch h), fun h => (nomatch h),
    fun h => (nomatch h)⟩

@[simp] theorem rest_init (chunks : List Bytes) :
    Scanner.rest { input := chunks } = chunks.flatten := by simp [rest]

@[simp] theorem measure_init (chunks : List Bytes) :
    Scanner.measure { input := chunks } = chunks.flatten.length + 1 := rfl

/-- A piece followed by the delimiter is the next token when it fits the largest buffer with
the delimiter: the loop reads until the held bytes contain the delimiter. -/
theorem scan_delimited {delim : Bytes} (hd : delim ≠ []) {j : Nat}
    (hfit : j + delim.length ≤ maxScanTokenSize) :
    ∀ (fuel : Nat) (s : Scanner), s.Wf → s.measure < fuel → findDelim delim s.rest = some j →
      ∃ s', s.scan delim fuel = some (some (s.rest.take j), s') ∧ s'.Wf ∧
        s'.rest = s.rest.drop (j + delim.length)
  | 0, _, _, hμ, _ => absurd hμ (Nat.not_lt_zero _)
  | fuel + 1, s, hw, hμ, hj => by
    have hlen := findDelim_add_le hd hj
    by_cases hh : j + delim.length ≤ s.held.length
    · -- the token is in the held bytes
      have hf : findDelim delim s.held = some j := by
        rw [held_eq_take_rest s]; exact findDelim_take_of_le hd hj hh
      have hl : 0 < delim.length := List.length_pos.2 hd
      have htok : s.held.take j = s.rest.take j := by
        rw [rest, List.take_append_of_le_length (by omega)]
      refine ⟨s.advance (j + delim.length), ?_, hw.advance hh, rest_advance hh⟩
      rw [scan_token fuel (.inl (List.ne_nil_of_length_pos (by omega)))
        (clientSplit_of_some hd hf _), htok]
    · -- the delimiter is not all read yet
      have hf : findDelim delim s.held = none := by
        rw [held_eq_take_rest s]; exact findDelim_take_of_lt hd hj (by omega)
      have herr := hw.err_eq_none (by omega)
      have hnot := not_full_of_lt hw (by omega)
      obtain ⟨hw', hrest, hμ'⟩ := fill_spec hw herr hnot
      obtain ⟨s', h, hw'', hr⟩ := scan_delimited hd hfit fuel _ hw' (by omega) (by rwa [hrest])
      exact ⟨s', by rw [scan_more fuel herr hf hnot, h, hrest], hw'', by rw [hr, hrest]⟩

/-- A last piece without a delimiter is the next token when it is shorter than the largest
buffer: the loop reads to the end of input, and the split function returns what is left. -/
theorem scan_last {delim : Bytes} (hd : delim ≠ []) :
    ∀ (fuel : Nat) (s : Scanner), s.Wf → s.measure < fuel → findDelim delim s.rest = none →
      s.rest ≠ [] → s.rest.length < maxScanTokenSize →
      ∃ s', s.scan delim fuel = some (some s.rest, s') ∧ s'.Wf ∧ s'.rest = [] ∧
        s'.err = some .eof
  | 0, _, _, hμ, _, _, _ => absurd hμ (Nat.not_lt_zero _)
  | fuel + 1, s, hw, hμ, hn, hne, hlt => by
    have hf : findDelim delim s.held = none := by
      rw [held_eq_take_rest s]; exact findDelim_take_of_none hd _ hn
    match he : s.err with
    | some .eof =>
      have hr := rest_of_eof hw he
      rw [hr] at hne ⊢
      refine ⟨s.advance s.held.length, scan_token fuel (.inl hne) ?_, hw.advance le_rfl, ?_, he⟩
      · rw [clientSplit_of_none hf]; simp [he, hne]
      · rw [rest_advance le_rfl, hr, List.drop_length]
    | some .tooLong => exact absurd he hw.not_tooLong
    | none =>
      have hnot := not_full_of_lt hw (by simp only [rest, List.length_append] at hlt; omega)
      obtain ⟨hw', hrest, hμ'⟩ := fill_spec hw he hnot
      obtain ⟨s', h, h'⟩ :=
        scan_last hd fuel _ hw' (by omega) (by rwa [hrest]) (by rwa [hrest]) (by rwa [hrest])
      exact ⟨s', by rw [scan_more fuel he hf hnot, h, hrest], h'⟩

/-- With nothing left to tokenize, the loop reads to the end of input and the `Scan` stops. -/
theorem scan_end {delim : Bytes} :
    ∀ (fuel : Nat) (s : Scanner), s.Wf → s.measure < fuel → s.rest = [] →
      ∃ s', s.scan delim fuel = some (none, s') ∧ s'.err = some .eof
  | 0, _, _, hμ, _ => absurd hμ (Nat.not_lt_zero _)
  | fuel + 1, s, hw, hμ, hr => by
    have hh : s.held = [] := (List.append_eq_nil.1 hr).1
    have hf : findDelim delim s.held = none := by rw [hh]; rfl
    match he : s.err with
    | some .eof =>
      have hsplit : clientSplit delim s.held true = (0, none) := by
        rw [clientSplit_of_none hf]; simp [hh]
      exact ⟨_, scan_stop fuel (by simp [he]) hsplit, he⟩
    | some .tooLong => exact absurd he hw.not_tooLong
    | none =>
      have hnot := not_full_of_lt hw (by simp [hh, maxScanTokenSize])
      obtain ⟨hw', hrest, hμ'⟩ := fill_spec hw he hnot
      obtain ⟨s', h, h'⟩ := scan_end fuel _ hw' (by omega) (hrest.trans hr)
      exact ⟨s', by rw [scan_more fuel he hf hnot, h], h'⟩

/-- With no delimiter in the next `maxScanTokenSize` bytes, the loop fills the buffer at its
largest and the `Scan` fails with `ErrTooLong`. -/
theorem scan_tooLong {delim : Bytes} (hd : delim ≠ []) :
    ∀ (fuel : Nat) (s : Scanner), s.Wf → s.measure < fuel → s.err = none →
      findDelim delim (s.rest.take maxScanTokenSize) = none → maxScanTokenSize ≤ s.rest.length →
      ∃ s', s.scan delim fuel = some (none, s') ∧ s'.err = some .tooLong
  | 0, _, _, hμ, _, _, _ => absurd hμ (Nat.not_lt_zero _)
  | fuel + 1, s, hw, hμ, herr, hn, hlen => by
    have hend := hw.end_le
    have hbuf := hw.buf_le
    have hf : findDelim delim s.held = none := by
      rw [held_eq_take_rest s, ← Nat.min_eq_left (by simp only [endPos] at hend; omega :
        s.held.length ≤ maxScanTokenSize), ← List.take_take]
      exact findDelim_take_of_none hd _ hn
    by_cases hfull : s.shift.endPos = s.shift.bufLen ∧ maxScanTokenSize ≤ s.shift.bufLen
    · exact ⟨_, scan_full fuel herr hf hfull, rfl⟩
    · -- standard input is not yet exhausted: the held bytes alone do not fill the buffer
      have hin : s.input ≠ [] := by
        intro hin
        have hr : s.rest = s.held := by simp [rest, hin]
        rw [hr] at hlen
        rw [shift_bufLen, shift_full_iff hw] at hfull
        simp only [endPos] at hend
        omega
      obtain ⟨hw', hrest, hμ'⟩ := fill_spec hw herr hfull
      obtain ⟨s', h, h'⟩ := scan_tooLong hd fuel _ hw' (by omega)
        (read_err_of_ne_nil (by simpa using hin)) (by rwa [hrest]) (by rwa [hrest])
      exact ⟨s', by rw [scan_more fuel herr hf hfull, h], h'⟩

end Scanner

-- ════════════════════════════════════════════════════════════════════════
-- The tokens `runClient` submits
-- ════════════════════════════════════════════════════════════════════════

/-- The pieces of `strings.Split(s, delim)` fit the scanner's largest buffer: a piece followed
by the delimiter together with it, and the last piece alone with a byte to spare. -/
def Fits (delim s : Bytes) : Prop :=
  (∀ p ∈ (splitOn delim s).dropLast, p.length + delim.length ≤ maxScanTokenSize) ∧
    ∀ p ∈ (splitOn delim s).getLast?, p.length < maxScanTokenSize

instance (delim s : Bytes) : Decidable (Fits delim s) :=
  inferInstanceAs (Decidable (_ ∧ _))

section Fits

variable {delim s : Bytes}

/-- Past a delimiter, the pieces fit exactly when the first one fits with the delimiter and the
pieces of what follows fit. -/
theorem fits_iff_of_some (hd : delim ≠ []) {j : Nat} (hj : findDelim delim s = some j) :
    Fits delim s ↔
      j + delim.length ≤ maxScanTokenSize ∧ Fits delim (s.drop (j + delim.length)) := by
  obtain ⟨b, l, hl⟩ := List.exists_cons_of_ne_nil (splitOn_ne_nil delim (s.drop (j + delim.length)))
  have hj' : (s.take j).length = j :=
    List.length_take_of_le (by have := findDelim_add_le hd hj; omega)
  rw [Fits, Fits, splitOn_of_some hd hj, hl]
  simp only [List.dropLast_cons₂, List.getLast?_cons_cons, List.mem_cons, forall_eq_or_imp, hj',
    and_assoc]

/-- Without a delimiter, the one piece fits when it is shorter than the largest buffer. -/
theorem fits_iff_of_none (hd : delim ≠ []) (hn : findDelim delim s = none) :
    Fits delim s ↔ s.length < maxScanTokenSize := by
  simp [Fits, splitOn_of_none hd hn]

end Fits

/-- The `Scan` loop of `runClient` turns what is left into its tokens and reports no error,
when the pieces fit the buffer and the fuel covers a token a byte and the end of input. -/
theorem scanAll_tokensOf {delim : Bytes} (hd : delim ≠ []) :
    ∀ (fuel : Nat) (s : Scanner), s.Wf → s.rest.length + 2 ≤ fuel → Fits delim s.rest →
      scanAll delim fuel s = some (tokensOf delim s.rest, none)
  | 0, _, _, hfuel, _ => absurd hfuel (by omega)
  | fuel + 1, s, hw, hfuel, hfit => by
    have hμ : s.measure < fuel + 1 := by have := s.measure_le; omega
    cases hn : findDelim delim s.rest with
    | some j =>
      obtain ⟨hj, hfit'⟩ := (fits_iff_of_some hd hn).1 hfit
      obtain ⟨s', h, hw', hr⟩ := Scanner.scan_delimited hd hj (fuel + 1) s hw hμ hn
      have hlen := findDelim_add_le hd hn
      have hl : 0 < delim.length := List.length_pos.2 hd
      have ih := scanAll_tokensOf hd fuel s' hw' (by rw [hr, List.length_drop]; omega) (by rwa [hr])
      simp only [scanAll, h, ih, Option.map_some', tokensOf_of_some hd hn, hr]
    | none =>
      by_cases hr0 : s.rest = []
      · obtain ⟨s', h, he⟩ := @Scanner.scan_end delim (fuel + 1) s hw hμ hr0
        simp [scanAll, h, he, hr0, tokensOf_nil]
      · obtain ⟨s', h, hw', hr', he'⟩ :=
          Scanner.scan_last hd (fuel + 1) s hw hμ hn hr0 ((fits_iff_of_none hd hn).1 hfit)
        obtain ⟨f, rfl⟩ : ∃ f, fuel = f + 1 := ⟨fuel - 1, by have := List.length_pos.2 hr0; omega⟩
        obtain ⟨s'', h', he''⟩ := @Scanner.scan_end delim (f + 1) s' hw'
          (by rw [Scanner.measure, hw'.eof he', he']; exact Nat.succ_pos _) hr'
        simp [scanAll, h, h', he'', tokensOf_of_none hd hr0 hn]

/-- The `Scan` loop of `runClient` reports `ErrTooLong` when a piece does not fit the buffer,
after tokens that begin the tokens of what is left. -/
theorem scanAll_tooLong {delim : Bytes} (hd : delim ≠ []) :
    ∀ (fuel : Nat) (s : Scanner), s.Wf → s.rest.length + 2 ≤ fuel → ¬ Fits delim s.rest →
      ∃ toks, scanAll delim fuel s = some (toks, some .tooLong) ∧ toks <+: tokensOf delim s.rest
  | 0, _, _, hfuel, _ => absurd hfuel (by omega)
  | fuel + 1, s, hw, hfuel, hfit => by
    have hμ : s.measure < fuel + 1 := by have := s.measure_le; omega
    -- no delimiter ends within the largest buffer: the first `Scan` fails
    have hstop (hn : findDelim delim (s.rest.take maxScanTokenSize) = none)
        (hlen : maxScanTokenSize ≤ s.rest.length) :
        ∃ toks, scanAll delim (fuel + 1) s = some (toks, some .tooLong) ∧
          toks <+: tokensOf delim s.rest := by
      obtain ⟨s', h, he⟩ :=
        Scanner.scan_tooLong hd (fuel + 1) s hw hμ (hw.err_eq_none_of_le hlen) hn hlen
      exact ⟨[], by simp [scanAll, h, he], List.nil_prefix⟩
    cases hn : findDelim delim s.rest with
    | some j =>
      have hlen := findDelim_add_le hd hn
      by_cases hj : j + delim.length ≤ maxScanTokenSize
      · have hfit' : ¬ Fits delim (s.rest.drop (j + delim.length)) :=
          fun h => hfit ((fits_iff_of_some hd hn).2 ⟨hj, h⟩)
        obtain ⟨s', h, hw', hr⟩ := Scanner.scan_delimited hd hj (fuel + 1) s hw hμ hn
        have hl : 0 < delim.length := List.length_pos.2 hd
        obtain ⟨toks, ih, hp⟩ :=
          scanAll_tooLong hd fuel s' hw' (by rw [hr, List.length_drop]; omega) (by rwa [hr])
        refine ⟨s.rest.take j :: toks, by simp only [scanAll, h, ih, Option.map_some'], ?_⟩
        rw [tokensOf_of_some hd hn, ← hr]
        exact (List.prefix_cons_inj _).2 hp
      · exact hstop (findDelim_take_of_lt hd hn (by omega)) (by omega)
    | none =>
      rw [fits_iff_of_none hd hn] at hfit
      exact hstop (findDelim_take_of_none hd _ hn) (by omega)

/-- For every chunking of standard input into reads, `runClient` submits the non-empty pieces
of `strings.Split(s, delim)` in order and reports no error, when each piece followed by the
delimiter fits `MaxScanTokenSize` bytes with it and the last piece is shorter. -/
theorem runClient_submits_split {delim : Bytes} {chunks : List Bytes} (hd : delim ≠ [])
    (hc : ∀ c ∈ chunks, c ≠ []) (hfit : Fits delim chunks.flatten) {fuel : Nat}
    (hfuel : chunks.flatten.length + 2 ≤ fuel) :
    runClientTokens delim chunks fuel =
      some ((splitOn delim chunks.flatten).filter (· ≠ []), none) := by
  have h := scanAll_tokensOf hd fuel _ (Scanner.wf_init hc)
    (by rwa [Scanner.rest_init]) (by rwa [Scanner.rest_init])
  rw [runClientTokens, h, Scanner.rest_init, Option.map_some', filter_tokensOf]

/-- Two reads that cut the input at a delimiter. -/
theorem runClient_submits_split_comma :
    runClientTokens [44] [[97, 44, 98], [44, 44, 99]] 20 =
      some ((splitOn [44] [[97, 44, 98], [44, 44, 99]].flatten).filter (· ≠ []), none) :=
  @runClient_submits_split [44] [[97, 44, 98], [44, 44, 99]] (by decide) (by decide) (by decide)
    20 (by decide)

/-- When the first `MaxScanTokenSize` bytes of standard input hold no delimiter, `runClient`
submits nothing and reports `ErrTooLong`, whatever follows them. -/
theorem runClientTokens_tooLong {delim : Bytes} {chunks : List Bytes} (hd : delim ≠ [])
    (hc : ∀ c ∈ chunks, c ≠ []) (hn : findDelim delim (chunks.flatten.take maxScanTokenSize) = none)
    (hlen : maxScanTokenSize ≤ chunks.flatten.length) {fuel : Nat}
    (hfuel : chunks.flatten.length + 2 ≤ fuel) :
    runClientTokens delim chunks fuel = some ([], some .tooLong) := by
  obtain ⟨f, rfl⟩ : ∃ f, fuel = f + 1 := ⟨fuel - 1, by omega⟩
  obtain ⟨s', h, he⟩ := Scanner.scan_tooLong hd (f + 1) _ (Scanner.wf_init hc)
    (by rw [Scanner.measure_init]; omega) rfl
    (by rwa [Scanner.rest_init]) (by rwa [Scanner.rest_init])
  simp [runClientTokens, scanAll, h, he]

/-- For every chunking of standard input into reads, `runClient` reports an error exactly when a
piece of `strings.Split(s, delim)` does not fit the buffer, and the error is then `ErrTooLong`;
the jobs it submits are for the first non-empty pieces, in order. -/
theorem runClient_tooLong_iff_not_fits {delim : Bytes} {chunks : List Bytes} (hd : delim ≠ [])
    (hc : ∀ c ∈ chunks, c ≠ []) {fuel : Nat} (hfuel : chunks.flatten.length + 2 ≤ fuel) :
    ∃ toks, runClientTokens delim chunks fuel =
        some (toks, if Fits delim chunks.flatten then none else some .tooLong) ∧
      toks <+: (splitOn delim chunks.flatten).filter (· ≠ []) := by
  have hw := Scanner.wf_init hc
  have hlen : (Scanner.rest { input := chunks }).length + 2 ≤ fuel := by rwa [Scanner.rest_init]
  rw [← filter_tokensOf]
  by_cases hfit : Fits delim chunks.flatten
  · refine ⟨_, ?_, List.prefix_refl _⟩
    rw [if_pos hfit, runClientTokens,
      scanAll_tokensOf hd fuel _ hw hlen (by rwa [Scanner.rest_init]),
      Scanner.rest_init, Option.map_some']
  · obtain ⟨toks, h, hp⟩ := scanAll_tooLong hd fuel _ hw hlen (by rwa [Scanner.rest_init])
    rw [Scanner.rest_init] at hp
    exact ⟨_, by rw [if_neg hfit, runClientTokens, h, Option.map_some'], hp.filter _⟩

/-- Two pieces that fit: no error. -/
theorem runClient_tooLong_iff_not_fits_comma :
    ∃ toks, runClientTokens [44] [[97, 44, 98]] 10 =
        some (toks, if Fits [44] [[97, 44, 98]].flatten then none else some .tooLong) ∧
      toks <+: (splitOn [44] [[97, 44, 98]].flatten).filter (· ≠ []) :=
  @runClient_tooLong_iff_not_fits [44] [[97, 44, 98]] (by decide) (by decide) 10 (by decide)

/-- A single piece of exactly `MaxScanTokenSize` bytes: `strings.Split` returns it, and it fits
the buffer, but `runClient` submits nothing and reports `ErrTooLong`. -/
theorem runClient_loses_full_last_piece :
    splitOn [44] (List.replicate maxScanTokenSize 97) = [List.replicate maxScanTokenSize 97] ∧
    (List.replicate maxScanTokenSize (97 : UInt8)).length ≤ maxScanTokenSize ∧
    ∀ fuel, maxScanTokenSize + 2 ≤ fuel →
      runClientTokens [44] [List.replicate maxScanTokenSize 97] fuel =
        some ([], some .tooLong) := by
  have hn : findDelim [44] (List.replicate maxScanTokenSize 97) = none :=
    findDelim_of_not_mem (by simp only [List.mem_replicate]; decide)
  have hlen := List.length_replicate maxScanTokenSize (97 : UInt8)
  refine ⟨splitOn_of_none (by decide) hn, hlen.le, fun fuel hfuel => ?_⟩
  have hc : ∀ c ∈ [List.replicate maxScanTokenSize (97 : UInt8)], c ≠ [] := by
    simp only [List.mem_singleton, forall_eq, ne_eq, List.replicate_eq_nil_iff]; decide
  refine runClientTokens_tooLong (by decide) hc ?_ ?_ (by rwa [List.flatten_singleton, hlen])
  · have h := congrArg (findDelim [44])
      (List.take_replicate (97 : UInt8) maxScanTokenSize maxScanTokenSize)
    rw [Nat.min_self] at h
    rw [List.flatten_singleton]; exact h.trans hn
  · rw [List.flatten_singleton, hlen]

end Gearhulk
