import Gearhulk.Runtime

/-!
# The worker's persistent subprocess

`gearhulk worker` without `--eof` starts one subprocess for its command, and the handler
`createJobHandler` returns hands it every job in turn, under a mutex.
`processJobWithPersistentSubprocess` writes the payload to the subprocess's standard input,
ended by a newline. It then reads one line of the subprocess's standard output for each line
of `strings.TrimSpace(payload)` that it does not skip. The reads go through a `bufio.Reader`
made for that job and dropped after it.

The subprocess is a line filter `g`: it answers each line it reads with the one line `g line`,
in order, at its own pace. Here the stdout pipe is modelled by the answers the handler has not
read, whether the subprocess has written them yet or not, and a schedule: how many bytes each
read of the pipe finds ready. This is one job over one reader with a pipe of unbounded capacity;
`Gearhulk.Cmd.PersistentMode` follows the job over bounded pipes, and shows that it returns what
`persistentJob` returns here.

## Main definitions

- `trimSpace`, `trimSuffix` — `strings.TrimSpace` and `strings.TrimSuffix`
- `withNewline`, `writtenLines`, `readCount` — what a job writes, the lines the subprocess reads,
  and how many lines the handler reads
- `Pipe`, `Pipe.read`, `collectFragments`, `readString` — the stdout pipe, one read of it, and
  `ReadString('\n')` on a `bufio.Reader`
- `persistentJob`, `processJobWithPersistentSubprocess` — one job

## Main results

- `readCount_le` — the handler never reads more lines for a payload than it writes.
- `readString_spec` — `ReadString` returns the next line of the stream, in every schedule, and
  the reader and the pipe keep the rest of it.
- `persistentJob_spec` — a job returns the next `readCount` lines of the stream.
-/

namespace Gearhulk

/-- `'\n'`. -/
def newline : UInt8 := 10

-- ════════════════════════════════════════════════════════════════════════
-- strings.TrimSpace, strings.TrimSuffix
-- ════════════════════════════════════════════════════════════════════════

/-- The UTF-8 encodings of the runes `unicode.IsSpace` holds for: `'\t'`, `'\n'`, `'\v'`,
`'\f'`, `'\r'`, `' '`, U+0085, U+00A0, and the other runes of Unicode's `White_Space`: U+1680,
U+2000 to U+200A, U+2028, U+2029, U+202F, U+205F and U+3000. -/
def spaceRunes : List Bytes :=
  [[9], [10], [11], [12], [13], [32], [0xC2, 0x85], [0xC2, 0xA0], [0xE1, 0x9A, 0x80],
    [0xE2, 0x80, 0x80], [0xE2, 0x80, 0x81], [0xE2, 0x80, 0x82], [0xE2, 0x80, 0x83],
    [0xE2, 0x80, 0x84], [0xE2, 0x80, 0x85], [0xE2, 0x80, 0x86], [0xE2, 0x80, 0x87],
    [0xE2, 0x80, 0x88], [0xE2, 0x80, 0x89], [0xE2, 0x80, 0x8A], [0xE2, 0x80, 0xA8],
    [0xE2, 0x80, 0xA9], [0xE2, 0x80, 0xAF], [0xE2, 0x81, 0x9F], [0xE3, 0x80, 0x80]]

/-- `strings.TrimLeftFunc(s, unicode.IsSpace)`, at most `n` runes: drop the first rune while it
is a space. The rune `utf8.DecodeRune` reads is a space exactly when `s` starts with its
encoding. -/
def trimLeftSpace : Nat → Bytes → Bytes
  | 0, s => s
  | n + 1, s =>
    match spaceRunes.find? (·.isPrefixOf s) with
    | some r => trimLeftSpace n (s.drop r.length)
    | none => s

/-- `strings.TrimRightFunc(s, unicode.IsSpace)`, at most `n` runes. The rune
`utf8.DecodeLastRune` reads is a space exactly when `s` ends with its encoding, and the width
`TrimRightFunc` decodes again after the last rune it keeps cannot reach into a space, whose
first byte is not a continuation byte. -/
def trimRightSpace : Nat → Bytes → Bytes
  | 0, s => s
  | n + 1, s =>
    match spaceRunes.find? (·.isSuffixOf s) with
    | some r => trimRightSpace n (s.take (s.length - r.length))
    | none => s

/-- `strings.TrimSpace`. Its loops over ASCII bytes and its `TrimFunc` fallback trim the same
runes; every rune trimmed is at least one byte, so `len(s)` turns suffice. -/
def trimSpace (s : Bytes) : Bytes := trimRightSpace s.length (trimLeftSpace s.length s)

/-- `strings.TrimSuffix(s, suffix)`. -/
def trimSuffix (s suffix : Bytes) : Bytes :=
  if suffix.isSuffixOf s then s.take (s.length - suffix.length) else s

section Trim

theorem trimLeftSpace_suffix : ∀ (n : Nat) (s : Bytes), trimLeftSpace n s <:+ s
  | 0, s => List.suffix_refl s
  | n + 1, s => by
    unfold trimLeftSpace
    split
    · exact (trimLeftSpace_suffix n _).trans (List.drop_suffix _ _)
    · exact List.suffix_refl s

theorem trimRightSpace_isPrefix : ∀ (n : Nat) (s : Bytes), trimRightSpace n s <+: s
  | 0, s => List.prefix_refl s
  | n + 1, s => by
    unfold trimRightSpace
    split
    · exact (trimRightSpace_isPrefix n _).trans (List.take_prefix _ _)
    · exact List.prefix_refl s

/-- A trailing newline is a space: trimming the right of `t ++ "\n"` trims `t`. -/
theorem trimRightSpace_newline (n : Nat) (t : Bytes) :
    trimRightSpace (n + 1) (t ++ [newline]) = trimRightSpace n t := by
  have h : spaceRunes.find? (·.isSuffixOf (t ++ [newline])) = some [10] := by
    simp [spaceRunes, List.find?, newline, List.isSuffixOf, List.isPrefixOf]
  simp [trimRightSpace, h]

theorem trimSpace_isInfix (s : Bytes) : trimSpace s <:+: s :=
  (trimRightSpace_isPrefix _ _).isInfix.trans (trimLeftSpace_suffix _ _).isInfix

/-- `strings.TrimSpace` of a text ending in a newline lies within the text before it. -/
theorem trimSpace_infix_of_newline (t : Bytes) : trimSpace (t ++ [newline]) <:+: t := by
  obtain ⟨u, hu⟩ := trimLeftSpace_suffix (t ++ [newline]).length (t ++ [newline])
  unfold trimSpace
  generalize trimLeftSpace (t ++ [newline]).length (t ++ [newline]) = w at hu ⊢
  rcases List.eq_nil_or_concat w with rfl | ⟨v, b, rfl⟩
  · exact (trimRightSpace_isPrefix _ _).isInfix.trans List.nil_infix
  · -- what is left ends with the newline, and trimming the right removes it first
    rw [List.concat_eq_append, ← List.append_assoc] at hu
    rw [List.concat_eq_append]
    obtain ⟨huv, hb⟩ := List.append_inj' hu rfl
    simp only [List.cons.injEq, and_true] at hb
    subst hb
    rw [List.length_append, List.length_singleton, trimRightSpace_newline]
    exact (trimRightSpace_isPrefix _ _).isInfix.trans (huv ▸ (List.suffix_append u v).isInfix)

@[simp] theorem trimSuffix_newline (x : Bytes) : trimSuffix (x ++ [newline]) [newline] = x := by
  simp [trimSuffix]

end Trim

-- ════════════════════════════════════════════════════════════════════════
-- Lines
-- ════════════════════════════════════════════════════════════════════════

/-- What the handler writes for `data`: the payload, and a newline unless it ends with one. -/
def withNewline (data : Bytes) : Bytes :=
  if [newline].isSuffixOf data then data else data ++ [newline]

/-- The lines the subprocess reads from what the handler writes for `data`. -/
def writtenLines (data : Bytes) : List Bytes := (split newline (withNewline data)).dropLast

/-- How many lines the handler reads for `data`: the pieces of
`strings.Split(strings.TrimSpace(data), "\n")` it does not skip. -/
def readCount (skip : Bytes → Bool) (data : Bytes) : Nat :=
  (split newline (trimSpace data)).countP fun l => !skip l

/-- The text whose lines the subprocess is given: the payload less a final newline. -/
def payloadText (data : Bytes) : Bytes :=
  if [newline].isSuffixOf data then data.dropLast else data

/-- `s` neither starts nor ends with a space rune: `strings.TrimSpace` keeps it whole. -/
def SpaceTrimmed (s : Bytes) : Prop := ∀ r ∈ spaceRunes, ¬ r <+: s ∧ ¬ r <:+ s

instance (s : Bytes) : Decidable (SpaceTrimmed s) :=
  inferInstanceAs (Decidable (∀ r ∈ spaceRunes, _))

/-- Lines, each followed by a newline. -/
def unlines (ls : List Bytes) : Bytes := (ls.map (· ++ [newline])).flatten

/-- A subprocess that answers each line with one line: no newline in an answer to a line. -/
def LineFilter (g : Bytes → Bytes) : Prop := ∀ l, newline ∉ l → newline ∉ g l

/-- What a line filter writes for the lines `ls`. -/
def answers (g : Bytes → Bytes) (ls : List Bytes) : Bytes := unlines (ls.map g)

/-- The first `k` lines of a stream, without their newlines, and the rest; `none` when the
stream holds fewer than `k` newlines. -/
def takeLines : Nat → Bytes → Option (List Bytes × Bytes)
  | 0, s => some ([], s)
  | k + 1, s =>
    match cut newline s with
    | some (x, r) => (takeLines k r).map fun q => (x :: q.1, q.2)
    | none => none

section Lines

variable {sep : UInt8}

theorem cut_append_of_not_mem {a : Bytes} (b : Bytes) (h : sep ∉ a) :
    cut sep (a ++ b) = (cut sep b).map fun q => (a ++ q.1, q.2) := by
  induction a with
  | nil => simp
  | cons c a ih =>
    simp only [List.mem_cons, not_or] at h
    simp [cut, Ne.symm h.1, ih h.2, Option.map_map, Function.comp_def]

theorem cut_append_of_some {a x y : Bytes} (b : Bytes) (h : cut sep a = some (x, y)) :
    cut sep (a ++ b) = some (x, y ++ b) := by
  obtain ⟨hx, rfl⟩ := not_mem_of_cut h
  rw [List.append_assoc, List.cons_append, cut_append_cons _ hx]

/-- Every piece of `splitN` holds no separator, when `n` leaves none in the last piece. -/
theorem not_mem_of_mem_splitN : ∀ (n : Nat) (s : Bytes), s.count sep < n →
    ∀ x ∈ splitN sep n s, sep ∉ x
  | 0, _, h => absurd h (Nat.not_lt_zero _)
  | 1, s, h => by
    rw [splitN_one]; simp only [List.mem_singleton, forall_eq]
    exact List.count_eq_zero.1 (by omega)
  | n + 2, s, h => by
    cases hc : cut sep s with
    | none => simpa [splitN, hc] using cut_eq_none hc
    | some q =>
      have hcount := count_of_cut hc
      simp only [splitN, hc, List.mem_cons, forall_eq_or_imp]
      exact ⟨(not_mem_of_cut hc).1, not_mem_of_mem_splitN (n + 1) q.2 (by omega)⟩

theorem length_split (s : Bytes) : (split sep s).length = s.count sep + 1 :=
  length_splitN _ s (Nat.lt_succ_self _)

theorem not_mem_of_mem_split {s x : Bytes} (hx : x ∈ split sep s) : sep ∉ x :=
  not_mem_of_mem_splitN _ s (Nat.lt_succ_self _) x hx

theorem not_mem_writtenLines {data l : Bytes} (h : l ∈ writtenLines data) : newline ∉ l :=
  not_mem_of_mem_split (List.dropLast_subset _ h)

theorem length_writtenLines (data : Bytes) :
    (writtenLines data).length = (withNewline data).count newline := by
  simp [writtenLines, length_split]

/-- The handler never reads more lines for a payload than it writes. -/
theorem readCount_le (skip : Bytes → Bool) (data : Bytes) :
    readCount skip data ≤ (writtenLines data).length := by
  have hc : (trimSpace data).count newline + 1 ≤ (withNewline data).count newline := by
    unfold withNewline
    split
    · next h =>
      obtain ⟨t, rfl⟩ := List.isSuffixOf_iff_suffix.1 h
      have := (trimSpace_infix_of_newline t).count_le newline
      simp; omega
    · have := (trimSpace_isInfix data).count_le newline
      simp; omega
  calc readCount skip data ≤ (split newline (trimSpace data)).length := List.countP_le_length _
    _ = (trimSpace data).count newline + 1 := length_split _
    _ ≤ (writtenLines data).length := by rw [length_writtenLines]; exact hc

@[simp] theorem unlines_nil : unlines [] = [] := rfl

@[simp] theorem unlines_cons (y : Bytes) (ys : List Bytes) :
    unlines (y :: ys) = y ++ newline :: unlines ys := by simp [unlines]

theorem unlines_append (a b : List Bytes) : unlines (a ++ b) = unlines a ++ unlines b := by
  simp [unlines]

/-- The answers of a line filter to lines hold no newline. -/
theorem LineFilter.not_mem_map {g : Bytes → Bytes} (hg : LineFilter g) {ls : List Bytes}
    (hl : ∀ l ∈ ls, newline ∉ l) : ∀ y ∈ ls.map g, newline ∉ y := by
  simp only [List.mem_map]
  rintro _ ⟨l, hl', rfl⟩
  exact hg l (hl l hl')

theorem length_le_count_unlines : ∀ ys : List Bytes, ys.length ≤ (unlines ys).count newline
  | [] => le_rfl
  | y :: ys => by
    have := length_le_count_unlines ys
    simp; omega

/-- The first `k` of lines written out are read back, and the rest of them stays. -/
theorem takeLines_unlines : ∀ {ys : List Bytes}, (∀ y ∈ ys, newline ∉ y) → ∀ {k : Nat},
    k ≤ ys.length → ∀ R : Bytes,
      takeLines k (unlines ys ++ R) = some (ys.take k, unlines (ys.drop k) ++ R)
  | _, _, 0, _, _ => rfl
  | [], _, _ + 1, hk, _ => absurd hk (by simp)
  | y :: ys, hy, k + 1, hk, R => by
    have hy' : ∀ y ∈ ys, newline ∉ y := fun z hz => hy z (List.mem_cons_of_mem _ hz)
    rw [unlines_cons, List.append_assoc, List.cons_append, takeLines,
      cut_append_cons _ (hy y (List.mem_cons_self _ _))]
    simp only [takeLines_unlines hy' (by simpa using hk) R, Option.map_some', List.take_succ_cons,
      List.drop_succ_cons]

end Lines

section LineForLine

variable {s : Bytes}

/-- A space rune has no newline after its first byte: the other bytes of a UTF-8 encoding are
continuation bytes. -/
theorem newline_not_mem_tail_spaceRunes : ∀ r ∈ spaceRunes, newline ∉ r.tail := by decide

theorem trimLeftSpace_eq_self (h : ∀ r ∈ spaceRunes, ¬ r <+: s) :
    ∀ n, trimLeftSpace n s = s
  | 0 => rfl
  | n + 1 => by
    have : spaceRunes.find? (·.isPrefixOf s) = none :=
      List.find?_eq_none.2 fun r hr => by simpa using h r hr
    simp [trimLeftSpace, this]

theorem trimRightSpace_eq_self (h : ∀ r ∈ spaceRunes, ¬ r <:+ s) :
    ∀ n, trimRightSpace n s = s
  | 0 => rfl
  | n + 1 => by
    have : spaceRunes.find? (·.isSuffixOf s) = none :=
      List.find?_eq_none.2 fun r hr => by simpa using h r hr
    simp [trimRightSpace, this]

theorem withNewline_eq (data : Bytes) : withNewline data = payloadText data ++ [newline] := by
  unfold withNewline payloadText
  split
  · next h =>
    obtain ⟨t, rfl⟩ := List.isSuffixOf_iff_suffix.1 h
    rw [List.dropLast_concat]
  · rfl

theorem splitN_append_sep {sep : UInt8} : ∀ (n : Nat) (t : Bytes), t.count sep < n →
    splitN sep (n + 1) (t ++ [sep]) = splitN sep n t ++ [[]]
  | 0, _, h => absurd h (Nat.not_lt_zero _)
  | 1, t, h => by
    rw [splitN_succ_succ_append [] 0 (List.count_eq_zero.1 (by omega))]; rfl
  | n + 2, t, h => by
    cases hc : cut sep t with
    | none =>
      have ht := cut_eq_none hc
      rw [splitN_succ_succ_append [] _ ht, splitN_succ_succ_of_not_mem _ ht]
      rfl
    | some q =>
      have hcount : q.2.count sep < n + 1 := by have := count_of_cut hc; omega
      obtain ⟨hx, rfl⟩ := not_mem_of_cut hc
      rw [List.append_assoc, List.cons_append, splitN_succ_succ_append _ _ hx,
        splitN_succ_succ_append _ _ hx, splitN_append_sep (n + 1) q.2 hcount]
      rfl

/-- The lines the subprocess reads are the pieces of the payload's text. -/
theorem writtenLines_eq (data : Bytes) : writtenLines data = split newline (payloadText data) := by
  have h := @splitN_append_sep newline _ (payloadText data) (Nat.lt_succ_self _)
  rw [writtenLines, withNewline_eq, split, List.count_append]
  simpa [split] using congrArg List.dropLast h

/-- `strings.TrimSpace` keeps the text of a payload whose text has no space at its ends. -/
theorem trimSpace_eq_payloadText {data : Bytes} (h : SpaceTrimmed (payloadText data)) :
    trimSpace data = payloadText data := by
  unfold payloadText at h ⊢
  by_cases hs : [newline].isSuffixOf data
  · rw [if_pos hs] at h ⊢
    obtain ⟨t, rfl⟩ := List.isSuffixOf_iff_suffix.1 hs
    rw [List.dropLast_concat] at h ⊢
    rcases eq_or_ne t [] with rfl | ht
    · decide
    · -- the newline cannot complete a space rune begun in `t`
      have hl : ∀ r ∈ spaceRunes, ¬ r <+: t ++ [newline] := fun r hr hp =>
        (List.prefix_concat_iff.1 hp).elim
          (fun he => newline_not_mem_tail_spaceRunes r hr (by simp [he, ht]))
          (h r hr).1
      unfold trimSpace
      rw [trimLeftSpace_eq_self hl, List.length_append, List.length_singleton,
        trimRightSpace_newline, trimRightSpace_eq_self fun r hr => (h r hr).2]
  · rw [if_neg hs] at h ⊢
    unfold trimSpace
    rw [trimLeftSpace_eq_self fun r hr => (h r hr).1,
      trimRightSpace_eq_self fun r hr => (h r hr).2]

/-- A payload is read line for line when its text has no space at its ends and the handler
skips none of its lines: for `processJobWithPersistentSubprocess`, lines that are not empty;
for the other revision, lines that are not blank. -/
theorem readCount_eq_of_lines {skip : Bytes → Bool} {data : Bytes}
    (ht : SpaceTrimmed (payloadText data))
    (hl : ∀ l ∈ split newline (payloadText data), skip l = false) :
    readCount skip data = (writtenLines data).length := by
  rw [readCount, trimSpace_eq_payloadText ht, writtenLines_eq, List.countP_eq_length]
  simpa using hl

/-- The payload `"a\nb"`, with and without a final newline. -/
theorem readCount_eq_of_lines_two_lines :
    readCount (fun l => l.isEmpty) [97, 10, 98] = (writtenLines [97, 10, 98]).length ∧
    readCount (fun l => l.isEmpty) [97, 10, 98, 10] = (writtenLines [97, 10, 98, 10]).length :=
  ⟨readCount_eq_of_lines (by decide) (by decide), readCount_eq_of_lines (by decide) (by decide)⟩

end LineForLine

-- ════════════════════════════════════════════════════════════════════════
-- The stdout pipe and bufio.Reader
-- ════════════════════════════════════════════════════════════════════════

/-- The subprocess's standard output as the handler sees it: the answers to the lines it has
been given that the handler has not read, written yet or not, and the schedule: how many
bytes each coming read of the pipe finds ready. -/
structure Pipe where
  pending : Bytes
  sched : List Nat
  deriving DecidableEq, Repr

/-- `defaultBufSize`: the size of the buffer of a `bufio.NewReader`. -/
def defaultBufSize : Nat := 4096

/-- One `Read` of the pipe into `room` free bytes: it waits for the subprocess to write, and
returns at least one byte and at most what is ready; once the subprocess has answered every
line it was given, it waits for ever (`none`). -/
def Pipe.read (p : Pipe) (room : Nat) : Option (Bytes × Pipe) :=
  if p.pending = [] then none
  else
    let n := max 1 (min (p.sched.headD room) (min room p.pending.length))
    some (p.pending.take n, { pending := p.pending.drop n, sched := p.sched.tail })

/-- `collectFragments('\n')` over `ReadSlice`, at most `fuel` turns, on a reader holding
`buf`: the buffered bytes through the first newline; a full buffer handed back as
`ErrBufferFull` and collected in `acc`; otherwise `fill`, one read of the pipe into the free
end of the buffer. The line with its newline, the reader's buffer, and the pipe after it. -/
def collectFragments : Nat → Bytes → Bytes → Pipe → Option (Bytes × Bytes × Pipe)
  | 0, _, _, _ => none
  | fuel + 1, acc, buf, p =>
    match cut newline buf with
    | some (line, rest) => some (acc ++ line ++ [newline], rest, p)
    | none =>
      if defaultBufSize ≤ buf.length then collectFragments fuel (acc ++ buf) [] p
      else
        match p.read (defaultBufSize - buf.length) with
        | some (got, p') => collectFragments fuel acc (buf ++ got) p'
        | none => none

/-- `reader.ReadString('\n')`. Each turn of its loops reads a byte of the pipe, or hands a full
buffer back and reads next: twice the pipe's bytes bound them, and `none` means it waits for
ever. -/
def readString (buf : Bytes) (p : Pipe) : Option (Bytes × Bytes × Pipe) :=
  collectFragments (2 * p.pending.length + 2) [] buf p

/-- One read of a pipe holding bytes moves between one byte and `room` of them, in order. -/
theorem Pipe.read_spec {p : Pipe} {room : Nat} (hp : p.pending ≠ []) (hr : 0 < room) :
    ∃ got p', p.read room = some (got, p') ∧ 0 < got.length ∧ got.length ≤ room ∧
      got ++ p'.pending = p.pending := by
  have hl : 0 < p.pending.length := List.length_pos.2 hp
  refine ⟨_, _, if_neg hp, ?_, ?_, List.take_append_drop _ _⟩ <;>
    simp only [List.length_take] <;> omega

/-- `ReadString` returns the next line of the stream `buf ++ pending` in every schedule; the
reader's buffer and the pipe keep the rest of the stream. -/
theorem collectFragments_spec : ∀ (fuel : Nat) (acc buf : Bytes) (p : Pipe) (x R : Bytes),
    cut newline (buf ++ p.pending) = some (x, R) → buf.length ≤ defaultBufSize →
    2 * p.pending.length + (if defaultBufSize ≤ buf.length then 2 else 1) ≤ fuel →
    ∃ buf' p', collectFragments fuel acc buf p = some (acc ++ x ++ [newline], buf', p') ∧
      buf' ++ p'.pending = R ∧ buf'.length ≤ defaultBufSize
  | 0, _, _, _, _, _, _, _, hf => absurd hf (by split <;> omega)
  | fuel + 1, acc, buf, p, x, R, hc, hb, hf => by
    cases hcb : cut newline buf with
    | some q =>
      -- the newline is buffered
      obtain ⟨hx, hbuf⟩ := not_mem_of_cut hcb
      rw [cut_append_of_some _ hcb, Option.some.injEq, Prod.mk.injEq] at hc
      obtain ⟨rfl, rfl⟩ := hc
      refine ⟨q.2, p, by simp [collectFragments, hcb], rfl, ?_⟩
      rw [hbuf] at hb; simp at hb; omega
    | none =>
      have hnb := cut_eq_none hcb
      rw [cut_append_of_not_mem _ hnb, Option.map_eq_some'] at hc
      obtain ⟨⟨x', R'⟩, hc', he⟩ := hc
      simp only [Prod.mk.injEq] at he
      obtain ⟨rfl, rfl⟩ := he
      have hp : p.pending ≠ [] := by rintro h; simp [h, cut] at hc'
      by_cases hfull : defaultBufSize ≤ buf.length
      · -- `ErrBufferFull`: the full buffer is collected
        obtain ⟨buf', p', h, h1, h2⟩ := collectFragments_spec fuel (acc ++ buf) [] p x' R'
          (by simpa using hc') (by simp [defaultBufSize])
          (by rw [if_pos hfull] at hf; simp [defaultBufSize]; omega)
        refine ⟨buf', p', ?_, h1, h2⟩
        simp only [collectFragments, hcb, if_pos hfull, h, List.append_assoc]
      · -- `fill`: one read of the pipe
        obtain ⟨got, p₁, hr, hpos, hroom, hcons⟩ :=
          @Pipe.read_spec p (defaultBufSize - buf.length) hp (by omega)
        have hc₁ : cut newline (buf ++ got ++ p₁.pending) = some (buf ++ x', R') := by
          rw [List.append_assoc, hcons, cut_append_of_not_mem _ hnb, hc']; rfl
        have hlen : got.length + p₁.pending.length = p.pending.length := by
          rw [← List.length_append, hcons]
        rw [if_neg hfull] at hf
        obtain ⟨buf', p', h, h1, h2⟩ := collectFragments_spec fuel acc (buf ++ got) p₁ _ _ hc₁
          (by rw [List.length_append]; omega) (by split <;> omega)
        refine ⟨buf', p', ?_, h1, h2⟩
        simp only [collectFragments, hcb, if_neg hfull, hr, h]

theorem readString_spec {buf : Bytes} {p : Pipe} {x R : Bytes}
    (hc : cut newline (buf ++ p.pending) = some (x, R)) (hb : buf.length ≤ defaultBufSize) :
    ∃ buf' p', readString buf p = some (x ++ [newline], buf', p') ∧
      buf' ++ p'.pending = R ∧ buf'.length ≤ defaultBufSize := by
  simpa using collectFragments_spec _ [] buf p x R hc hb (by split <;> omega)

-- ════════════════════════════════════════════════════════════════════════
-- A job
-- ════════════════════════════════════════════════════════════════════════

/-- The reading loop of `processJobWithPersistentSubprocess` over `inputLines`: a line of
output for each input line it does not skip, less its newline (`strings.TrimSuffix`). -/
def readLines (skip : Bytes → Bool) : List Bytes → Bytes → Pipe → Option (List Bytes × Pipe)
  | [], _, p => some ([], p)
  | l :: ls, buf, p =>
    if skip l then readLines skip ls buf p
    else
      match readString buf p with
      | some (line, buf', p') =>
        (readLines skip ls buf' p').map fun r => (trimSuffix line [newline] :: r.1, r.2)
      | none => none

/-- `processJobWithPersistentSubprocess` for a line filter `g`, with the test that skips an
input line: write `data` and a newline unless it ends with one, then read with a new
`bufio.Reader`, dropped at the end with what it buffered. The result is
`strings.Join(results, "\n")`. -/
def persistentJob (skip : Bytes → Bool) (g : Bytes → Bytes) (p : Pipe) (data : Bytes) :
    Option (Bytes × Pipe) :=
  (readLines skip (split newline (trimSpace data)) []
      { p with pending := p.pending ++ answers g (writtenLines data) }).map
    fun r => (List.intercalate [newline] r.1, r.2)

/-- `processJobWithPersistentSubprocess`: an input line is skipped when it is empty. -/
def processJobWithPersistentSubprocess (g : Bytes → Bytes) : Pipe → Bytes → Option (Bytes × Pipe) :=
  persistentJob (fun l => l.isEmpty) g

/-- `processJobWithPersistentSubprocess` of the other revision of the worker command: an input
line is skipped when `strings.TrimSpace` leaves nothing of it. It reads in a goroutine and
gives up after five seconds; the subprocess is taken to answer before that. -/
def processJobWithPersistentSubprocessTimeout (g : Bytes → Bytes) :
    Pipe → Bytes → Option (Bytes × Pipe) :=
  persistentJob (fun l => (trimSpace l).isEmpty) g

section Job

variable {skip : Bytes → Bool} {g : Bytes → Bytes}

/-- The reading loop returns the next lines of the stream, one for each input line it does not
skip; the pipe keeps what follows them, less what the reader buffered. -/
theorem readLines_spec : ∀ (ls : List Bytes) (buf : Bytes) (p : Pipe) (xs : List Bytes) (R : Bytes),
    takeLines (ls.countP fun l => !skip l) (buf ++ p.pending) = some (xs, R) →
    buf.length ≤ defaultBufSize →
    ∃ p', readLines skip ls buf p = some (xs, p') ∧ ∃ buf', buf' ++ p'.pending = R
  | [], buf, p, xs, R, h, _ => by
    simp only [List.countP_nil, takeLines, Option.some.injEq, Prod.mk.injEq] at h
    obtain ⟨rfl, rfl⟩ := h
    exact ⟨p, rfl, buf, rfl⟩
  | l :: ls, buf, p, xs, R, h, hb => by
    by_cases hs : skip l
    · rw [List.countP_cons_of_neg (p := fun l => !skip l) _ (by simp [hs])] at h
      simpa [readLines, hs] using readLines_spec ls buf p xs R h hb
    · rw [List.countP_cons_of_pos (p := fun l => !skip l) _ (by simp [hs]), takeLines] at h
      split at h
      · next x R₁ hc =>
        obtain ⟨⟨xs', R'⟩, ht, he⟩ := Option.map_eq_some'.1 h
        simp only [Prod.mk.injEq] at he
        obtain ⟨rfl, rfl⟩ := he
        obtain ⟨buf', p', hr, hcons, hb'⟩ := readString_spec hc hb
        obtain ⟨p'', h', hR⟩ := readLines_spec ls buf' p' xs' R' (hcons ▸ ht) hb'
        exact ⟨p'', by simp [readLines, hs, hr, h'], hR⟩
      · simp at h

/-- A job returns the next `readCount` lines of the stream: what the pipe held, then the
answers to the lines it wrote. -/
theorem persistentJob_spec {p : Pipe} {data R : Bytes} {xs : List Bytes}
    (h : takeLines (readCount skip data) (p.pending ++ answers g (writtenLines data)) =
      some (xs, R)) :
    ∃ p', persistentJob skip g p data = some (List.intercalate [newline] xs, p') ∧
      ∃ buf', buf' ++ p'.pending = R := by
  obtain ⟨p', h', hR⟩ := @readLines_spec skip (split newline (trimSpace data)) []
    { p with pending := p.pending ++ answers g (writtenLines data) } xs R
    (by simpa [readCount] using h) (by simp [defaultBufSize])
  exact ⟨p', by simp [persistentJob, h'], hR⟩

end Job

end Gearhulk
