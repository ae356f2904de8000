import Gearhulk.Cmd.EofMode

/-!
# Persistent mode, one job from any state between two jobs

`processJobWithPersistentSubprocess` writes the payload and, unless it ends with one, a newline
to the standard input of the subprocess that runs for every job, then reads a line of standard
output for each input line it does not skip, and returns those lines joined by newlines. This
module follows one such job in the model of `Gearhulk.Cmd.Pipes`, through every interleaving of
the handler and the subprocess, from any state the jobs before it leave: bytes of earlier jobs
may still be in standard input, in the subprocess, or in standard output.

`Sys.toCome p s input` is what the handler is to find in standard output from `s` on, once the
subprocess has answered what standard input holds and then `input`. A job's result is the first
`readCount` lines of what is to come when it starts; what is to come when it returns is the rest.
When the job fits its pipes, every schedule is bounded and every state where neither party can
move is the handler returned. From the state before the first job, the result is the one
`persistentJob` of `Gearhulk.Cmd.Subprocess` computes from an empty pipe: the model over bounded
pipes refines the model over one reader.

## Main definitions

- `Sys.started`, `Sys.nextJob` — the state before the first job, and the handler taking a job
- `Sys.toCome` — what the handler is to find in standard output
- `Between` — what holds of the pipes and the subprocess between two jobs
- `LineStage`, `Answering` — the handler's phase in persistent mode, and the invariant of a job
- `Sys.answered` — the bytes moved, which every step raises

## Main results

- `LineCommand.output_withNewline` — what the command writes for a payload is its answers to the
  lines the handler writes.
- `Between.toCome_append` — between two jobs, what is to come over more input is what is to come,
  then the answers to that input.
- `Answering.step` — every step keeps `Answering` and raises `Sys.answered`.
- `Answering.done_spec` — returned, the handler has the first lines of what was to come, and the
  rest is still to come.
- `Answering.done_of_fits` — on pipes the job fits, a state where neither party moves is the
  handler returned.
- `nextJob_run` — every schedule of a job is bounded and keeps `Answering`.
- `persistentSubprocessJob_refines_persistentJob` — from the state before the first job, the
  result is `persistentJob`'s.

## Design notes

Standard error is the null device in persistent mode, so the subprocess writes nothing to the
pipe; standard input stays open and the subprocess never exits. `Answering` carries two counts
besides the state: the bytes the subprocess has read, and those the handler has read of
standard output. The handler reads standard output a byte at a time; the bytes a job's
`bufio.Reader` takes past its last line are dropped at the job's end, in
`Gearhulk.Cmd.PersistentRuns`.
-/

namespace Gearhulk

-- ════════════════════════════════════════════════════════════════════════
-- What the command writes for the lines of a payload
-- ════════════════════════════════════════════════════════════════════════

section Output

variable (p : LineCommand)

/-- A line read to its newline is answered at once. -/
theorem LineCommand.output_append_newline : ∀ {x : Bytes} (line y : Bytes), newline ∉ x →
    p.output line (x ++ newline :: y) = p.answer (line ++ x) ++ [newline] ++ p.output [] y
  | [], line, y, _ => by simp [LineCommand.output]
  | b :: x, line, y, h => by
    simp only [List.mem_cons, not_or] at h
    simp [LineCommand.output, Ne.symm h.1, LineCommand.output_append_newline (line ++ [b]) y h.2]

/-- Past a newline the command starts a fresh line: what it writes over a text that ends with a
newline, then over what follows. -/
theorem LineCommand.output_append : ∀ (line u y : Bytes),
    p.output line (u ++ newline :: y) = p.output line (u ++ [newline]) ++ p.output [] y
  | line, [], y => by simp [LineCommand.output]
  | line, b :: u, y => by
    by_cases hb : b = newline
    · simp [LineCommand.output, hb, LineCommand.output_append [] u y]
    · simp [LineCommand.output, hb, LineCommand.output_append (line ++ [b]) u y]

/-- Over lines each followed by a newline, the command writes its answers, each followed by a
newline. -/
theorem LineCommand.output_unlines : ∀ {ls : List Bytes}, (∀ l ∈ ls, newline ∉ l) →
    p.output [] (unlines ls) = answers p.answer ls
  | [], _ => by simp [LineCommand.output, answers]
  | l :: ls, h => by
    rw [unlines_cons, p.output_append_newline [] _ (h l (List.mem_cons_self _ _)),
      LineCommand.output_unlines fun y hy => h y (List.mem_cons_of_mem _ hy)]
    simp [answers]

/-- The pieces of a text, each followed by a newline, are the text and a newline. -/
theorem unlines_split (text : Bytes) : unlines (split newline text) = text ++ [newline] := by
  cases hc : cut newline text with
  | none => simp [split_of_not_mem (cut_eq_none hc)]
  | some q =>
    obtain ⟨hx, rfl⟩ := not_mem_of_cut hc
    have : q.2.length < (q.1 ++ newline :: q.2).length := by
      simp only [List.length_append, List.length_cons]; omega
    rw [split_append_cons _ hx, unlines_cons, unlines_split q.2]
    simp
termination_by text.length

/-- What the subprocess is to read for a job ends with the newline the handler writes last. -/
theorem append_withNewline_ends (x data : Bytes) : ∃ u, x ++ withNewline data = u ++ [newline] :=
  ⟨x ++ payloadText data, by rw [withNewline_eq, List.append_assoc]⟩

/-- What the handler writes for a payload is the lines the subprocess reads, each followed by a
newline. -/
theorem withNewline_eq_unlines (data : Bytes) : withNewline data = unlines (writtenLines data) := by
  rw [writtenLines_eq, unlines_split, withNewline_eq]

/-- What the command writes for a payload is its answers to the lines the handler writes. -/
theorem LineCommand.output_withNewline (data : Bytes) :
    p.output [] (withNewline data) = answers p.answer (writtenLines data) := by
  rw [withNewline_eq_unlines]
  exact p.output_unlines fun _ => not_mem_writtenLines

/-- The command writes at least a line for each line the handler reads. -/
theorem readCount_le_count_output (skip : Bytes → Bool) (data : Bytes) :
    readCount skip data ≤ (p.output [] (withNewline data)).count newline := by
  have := length_le_count_unlines ((writtenLines data).map p.answer)
  have := readCount_le skip data
  rw [p.output_withNewline, answers]
  simp only [List.length_map] at *
  omega

end Output

/-- Lines with no newline inside hold one newline each once written out. -/
theorem count_unlines : ∀ {ls : List Bytes}, (∀ l ∈ ls, newline ∉ l) →
    (unlines ls).count newline = ls.length
  | [], _ => rfl
  | l :: ls, h => by
    have := count_unlines fun y hy => h y (List.mem_cons_of_mem _ hy)
    simp [List.count_append, List.count_eq_zero_of_not_mem (h l (List.mem_cons_self _ _)), this]

/-- The last byte of a stream that ends with a newline is that newline. -/
theorem eq_newline_of_drop {data r : Bytes} {C : Nat} {x : UInt8}
    (hnl : ∃ u, data = u ++ [newline]) (hs : data.drop C = x :: r) (hC : C + 1 = data.length) :
    x = newline := by
  obtain ⟨u, rfl⟩ := hnl
  rw [show C = u.length by simp at hC; omega, List.drop_left] at hs
  exact (List.cons.inj hs).1.symm

-- ════════════════════════════════════════════════════════════════════════
-- The next job
-- ════════════════════════════════════════════════════════════════════════

/-- The state before the first job: the subprocess started, every pipe empty and open. No job
has set the handler's phase or its count of lines yet. -/
def Sys.started : Sys := { mode := .persistent 0, worker := .done [] none }

/-- The handler takes the next job, with the test that skips an input line: it is to write the
payload and, by a second `Write`, the newline it lacks, and to read a line for each input line
not skipped. The pipes and the subprocess are as the jobs before left them. -/
def Sys.nextJob (s : Sys) (skip : Bytes → Bool) (data : Bytes) : Sys :=
  { s with mode := .persistent (readCount skip data), worker := .write (withNewline data) }

/-- What the handler is to find in standard output from `s` on, in order, once the subprocess
has answered what standard input holds and then `input`: what standard output holds, what the
subprocess has to write, and its answers. -/
def Sys.toCome (s : Sys) (p : LineCommand) (input : Bytes) : Bytes :=
  s.stdout.buf ++ s.child.out ++ p.output s.child.line (s.stdin.buf ++ input)

/-- What holds between two jobs: standard input within its capacity; both pipes open, and the
subprocess running with nothing for standard error; and standard input either empty with the
subprocess between two lines, or ending with a newline. -/
structure Between (c : Caps) (s : Sys) : Prop where
  stdin_le : s.stdin.buf.length ≤ c.stdin
  stdin_open : s.stdin.closed = false
  stdout_open : s.stdout.closed = false
  not_exited : s.child.exited = false
  not_eof : s.child.eof = false
  err_nil : s.child.err = []
  input_ends : s.stdin.buf = [] ∧ s.child.line = [] ∨ ∃ u, s.stdin.buf = u ++ [newline]

section Next

variable {c : Caps} {p : LineCommand} {s : Sys}

theorem Between.started : Between c Sys.started :=
  ⟨Nat.zero_le _, rfl, rfl, rfl, rfl, rfl, .inl ⟨rfl, rfl⟩⟩

/-- Between two jobs, what is to come over more input is what is to come, then the command's
answers to that input. -/
theorem Between.toCome_append (hb : Between c s) (p : LineCommand) (input : Bytes) :
    s.toCome p input = s.toCome p [] ++ p.output [] input := by
  unfold Sys.toCome
  rcases hb.input_ends with ⟨hin, hl⟩ | ⟨u, hu⟩
  · simp [hin, hl, LineCommand.output]
  · rw [hu, List.append_nil, ← List.append_cons, p.output_append]
    simp only [List.append_assoc]

/-- A job never has more lines to read than are to come. -/
theorem Between.readCount_le_count (hb : Between c s) (p : LineCommand) (skip : Bytes → Bool)
    (d : Bytes) : readCount skip d ≤ (s.toCome p (withNewline d)).count newline := by
  rw [hb.toCome_append, List.count_append]
  have := readCount_le_count_output p skip d
  omega

end Next

-- ════════════════════════════════════════════════════════════════════════
-- The invariant of persistent mode
-- ════════════════════════════════════════════════════════════════════════

/-- The handler's phase in persistent mode, reading `n` lines of `out` of which it has read `R`
bytes: it reads nothing while it writes; reading, the lines it has read and the line so far are
the first `R` bytes of `out`, and it has as many lines left as it has not read; returned, its
result is the `n` lines it read, joined by newlines. -/
def LineStage (n : Nat) (out : Bytes) (R : Nat) (s : Sys) : Prop :=
  match s.worker with
  | .write _ => R = 0
  | .readLine k cur acc => k + acc.length = n ∧ (k = 0 → cur = []) ∧ newline ∉ cur ∧
      (∀ l ∈ acc, newline ∉ l) ∧ unlines acc ++ cur = out.take R
  | .done r none => ∃ acc, r = List.intercalate [newline] acc ∧ acc.length = n ∧
      (∀ l ∈ acc, newline ∉ l) ∧ unlines acc = out.take R
  | _ => False

/-- What holds in every run of a job in persistent mode, with `n` lines to read, on the bytes
`data` the subprocess is to read from the job's start (what standard input held, then what the
handler writes) and the bytes `out` the handler is to find in standard output, the subprocess
having read `C` bytes and the handler `R`: what the handler has yet to write follows what
standard input holds in `data`; both pipes stay open, and the subprocess runs and has nothing for
standard error; it is between two lines once it has read all of `data`; and past what the handler
has read, `out` is what standard output holds, then what the subprocess has to write, then what
it will write over the rest of its input. -/
structure Answering (c : Caps) (p : LineCommand) (data out : Bytes) (n C R : Nat) (s : Sys) :
    Prop where
  mode : s.mode = .persistent n
  consumed_le : C ≤ data.length
  stream : data.drop C = s.stdin.buf ++ s.worker.toWrite
  stdin_le : s.stdin.buf.length ≤ c.stdin
  stdin_open : s.stdin.closed = false
  stdout_open : s.stdout.closed = false
  not_exited : s.child.exited = false
  not_eof : s.child.eof = false
  err_nil : s.child.err = []
  line_nil : C = data.length → s.child.line = []
  read_le : R ≤ out.length
  stage : LineStage n out R s
  output : s.stdout.buf ++ s.child.out ++ p.output s.child.line (data.drop C) = out.drop R

/-- The bytes moved in persistent mode, the subprocess having read `C` and the handler `R` of
standard output, and the phases passed: each step of either party raises it. -/
def Sys.answered (s : Sys) (C R : Nat) : Nat :=
  2 * C + s.stdin.buf.length + 2 * R + s.stdout.buf.length + s.worker.rank

section Answering

variable {c : Caps} {p : LineCommand} {data out : Bytes} {n C R : Nat} {s t : Sys}

/-- A job starts, from a state between two jobs, with `Answering` on what standard input holds
and the job's bytes, and on what is to come. -/
theorem Between.answering (hb : Between c s) (skip : Bytes → Bool) (d : Bytes) :
    Answering c p (s.stdin.buf ++ withNewline d) (s.toCome p (withNewline d)) (readCount skip d)
      0 0 (s.nextJob skip d) :=
  ⟨rfl, Nat.zero_le _, rfl, hb.stdin_le, hb.stdin_open, hb.stdout_open, hb.not_exited,
    hb.not_eof, hb.err_nil, fun h => by simp [withNewline_eq] at h; omega, Nat.zero_le _, rfl, rfl⟩

theorem Answering.answered_le (hf : Answering c p data out n C R s) :
    s.answered C R ≤ 2 * data.length + c.stdin + 2 * out.length + 4 := by
  have hout := congrArg List.length hf.output
  simp only [List.length_append, List.length_drop] at hout
  have := hf.consumed_le
  have := hf.stdin_le
  have := hf.read_le
  have : s.worker.rank ≤ 4 := by unfold Phase.rank; split <;> omega
  unfold Sys.answered
  omega

/-- What is to come fitting standard output leaves room for every answer the subprocess has to
write. -/
theorem Answering.stdout_room (hout : out.length ≤ c.stdout) (hf : Answering c p data out n C R s)
    (ho : s.child.out ≠ []) : s.stdout.buf.length < c.stdout := by
  have h := congrArg List.length hf.output
  simp only [List.length_append, List.length_drop] at h
  have := List.length_pos.2 ho
  omega

/-- Every step of the handler keeps `Answering` and raises `Sys.answered`. -/
theorem Answering.workerStep (hf : Answering c p data out n C R s) (h : workerStep c s = some t) :
    ∃ C' R', Answering c p data out n C' R' t ∧ s.answered C R < t.answered C' R' := by
  have hst := hf.stage
  cases hwk : s.worker with
  | write r =>
    simp only [LineStage, hwk] at hst
    cases r with
    | cons b r =>
      -- the handler writes the byte `b`
      rw [workerStep_write hwk] at h
      split_ifs at h with hroom
      cases h
      refine ⟨C, R, { hf with
        stream := by rw [hf.stream, hwk]; simp [Phase.toWrite]
        stdin_le := by simp only [List.length_append, List.length_singleton]; omega
        stage := hst }, ?_⟩
      simp only [Sys.answered, hwk, Phase.rank, List.length_append, List.length_singleton]
      omega
    | nil =>
      -- the handler has written the job and starts reading
      rw [workerStep_persist hwk hf.mode] at h
      cases h
      subst hst
      refine ⟨C, 0, { hf with
        stream := by rw [hf.stream, hwk]; rfl
        stage := ⟨by simp, fun _ => rfl, List.not_mem_nil _, nofun, by simp⟩ }, ?_⟩
      simp only [Sys.answered, hwk, Phase.rank]
      omega
  | readLine k cur acc =>
    simp only [LineStage, hwk] at hst
    obtain ⟨hk, hcur0, hcur, hacc, hread⟩ := hst
    have hnil : s.worker.toWrite = [] := by rw [hwk]; rfl
    cases k with
    | zero =>
      -- the handler has read its lines and returns them
      rw [workerStep_readLine_zero hwk] at h
      cases h
      refine ⟨C, R, { hf with
        stream := by rw [hf.stream, hnil]; rfl
        stage := ⟨acc, rfl, by simpa using hk, hacc, by simpa [hcur0 rfl] using hread⟩ }, ?_⟩
      simp only [Sys.answered, hwk, Phase.rank]
      omega
    | succ k =>
      rw [workerStep_readLine hwk] at h
      cases hb : s.stdout.buf with
      | nil => simp [hb, hf.stdout_open] at h
      | cons b bs =>
        -- the handler reads the byte `b` of standard output
        have hs : out.drop R = b :: (bs ++ s.child.out ++ p.output s.child.line (data.drop C)) := by
          rw [← hf.output, hb]; rfl
        obtain ⟨hdrop, htake⟩ := drop_take_succ_of_drop hs
        have hR : R + 1 ≤ out.length := by
          have := congrArg List.length hs
          simp only [List.length_drop, List.length_cons] at this
          omega
        rw [hb] at h
        cases h
        refine ⟨C, R + 1, { hf with
          stream := by rw [hf.stream, hnil]; split <;> rfl
          read_le := hR
          stage := ?_
          output := hdrop.symm }, ?_⟩
        · by_cases hnl : b = newline
          · -- a newline ends the line
            rw [if_pos hnl]
            exact ⟨by simp only [List.length_append, List.length_singleton]; omega, fun _ => rfl,
              List.not_mem_nil _, by simpa [or_imp, forall_and] using ⟨hacc, hcur⟩,
              by rw [htake, ← hread, hnl]; simp [unlines_append]⟩
          · rw [if_neg hnl]
            exact ⟨hk, nofun, by simp [hcur, Ne.symm hnl], hacc, by rw [htake, ← hread]; simp⟩
        · split <;> simp only [Sys.answered, hwk, hb, Phase.rank, List.length_cons] <;> omega
  | readOut _ | readErr _ _ | wait _ _ => simp [LineStage, hwk] at hst
  | done r e =>
    unfold Gearhulk.workerStep at h
    rw [hwk] at h
    cases h

/-- Every step of the subprocess keeps `Answering` and raises `Sys.answered`, on bytes to read
that end with a newline. -/
theorem Answering.childStep (hnl : ∃ u, data = u ++ [newline])
    (hf : Answering c p data out n C R s) (h : childStep c p s = some t) :
    ∃ C' R', Answering c p data out n C' R' t ∧ s.answered C R < t.answered C' R' := by
  cases ho : s.child.out with
  | cons o os =>
    -- the subprocess writes a byte of its answers
    rw [childStep_out ho] at h
    split_ifs at h
    cases h
    refine ⟨C, R, { hf with output := by rw [← hf.output, ho]; simp }, ?_⟩
    simp only [Sys.answered, List.length_append, List.length_singleton]
    omega
  | nil =>
    rw [childStep_read ho hf.err_nil hf.not_exited hf.not_eof hf.stdin_open] at h
    cases hin : s.stdin.buf with
    | nil => rw [hin] at h; cases h
    | cons x xs =>
      -- the subprocess reads the byte `x`
      rw [hin] at h
      cases h
      have hs : data.drop C = x :: (xs ++ s.worker.toWrite) := by rw [hf.stream, hin]; rfl
      have hlt : C < data.length := by
        have := congrArg List.length hs
        simp only [List.length_drop, List.length_cons] at this
        omega
      refine ⟨C + 1, R, { hf with
        consumed_le := hlt
        stream := (drop_take_succ_of_drop hs).1
        stdin_le := by have := hf.stdin_le; rw [hin] at this; simp at this ⊢; omega
        not_exited := by simp [hf.not_exited]
        not_eof := by simp [hf.not_eof]
        err_nil := Child.readByte_err_nil (fun _ => by simp [errFor, hf.mode]) hf.err_nil x
        line_nil := fun hC => by simp [Child.readByte, eq_newline_of_drop hnl hs hC]
        output := ?_ }, ?_⟩
      · rw [(drop_take_succ_of_drop hs).1, List.append_assoc,
          Child.readByte_output s.mode ho, ← hs, ← hf.output, ho, List.append_nil]
      · simp only [Sys.answered, hin, List.length_cons]
        omega

/-- Every step keeps `Answering` and raises `Sys.answered`. -/
theorem Answering.step (hnl : ∃ u, data = u ++ [newline]) (hf : Answering c p data out n C R s)
    {a : Party} (h : s.step c p a = some t) :
    ∃ C' R', Answering c p data out n C' R' t ∧ s.answered C R < t.answered C' R' := by
  cases a with
  | worker => exact hf.workerStep h
  | child => exact hf.childStep hnl h

/-- Returned, the handler has no error and the first `n` lines of `out`, joined by newlines; the
rest of `out` is still to come: in standard output, in the subprocess, or to be answered from
standard input. -/
theorem Answering.done_spec (hf : Answering c p data out n C R s) {r : Bytes}
    {e : Option GoError} (hw : s.worker = .done r e) :
    e = none ∧ ∃ acc, takeLines n out = some (acc, s.toCome p []) ∧
      r = List.intercalate [newline] acc := by
  have hst := hf.stage
  cases e with
  | some e => simp [LineStage, hw] at hst
  | none =>
    simp only [LineStage, hw] at hst
    obtain ⟨acc, rfl, hlen, hacc, hread⟩ := hst
    refine ⟨rfl, acc, ?_, rfl⟩
    have ht := takeLines_unlines hacc le_rfl (out.drop R)
    rw [List.take_length, List.drop_length, unlines_nil, List.nil_append, hlen, hread,
      List.take_append_drop] at ht
    rw [ht, ← hf.output, hf.stream, hw]
    rfl

/-- Once the handler has written its job, the pipes and the subprocess are between two jobs. -/
theorem Answering.between (hnl : ∃ u, data = u ++ [newline]) (hf : Answering c p data out n C R s)
    (hw : s.worker.toWrite = []) : Between c s := by
  have hs : data.drop C = s.stdin.buf := by rw [hf.stream, hw, List.append_nil]
  refine ⟨hf.stdin_le, hf.stdin_open, hf.stdout_open, hf.not_exited, hf.not_eof, hf.err_nil, ?_⟩
  cases hin : s.stdin.buf with
  | nil =>
    rw [hin] at hs
    exact .inl ⟨rfl, hf.line_nil (le_antisymm hf.consumed_le (List.drop_eq_nil_iff.1 hs))⟩
  | cons x xs =>
    obtain ⟨u, rfl⟩ := hnl
    rw [hin] at hs
    have hC : C ≤ u.length := by
      have := congrArg List.length hs
      simp only [List.length_drop, List.length_append, List.length_singleton,
        List.length_cons, List.length_nil] at this
      omega
    exact .inr ⟨u.drop C, by rw [← hs, List.drop_append_of_le_length hC]⟩

/-- An `Answering` state where neither party moves is the handler returned with no error: when
at least `n` lines are to come, the subprocess has room for its answers in an empty standard
output, and can move whenever the handler waits on a full standard input. -/
theorem Answering.done_of_stuck (hn : n ≤ out.count newline) (hf : Answering c p data out n C R s)
    (hroom : s.child.out ≠ [] → s.stdout.buf = [] → 0 < c.stdout)
    (hwrite : ∀ b r, s.worker = .write (b :: r) → c.stdin ≤ s.stdin.buf.length →
      Gearhulk.childStep c p s ≠ none)
    (hs : ∀ a, s.step c p a = none) : ∃ r, s.worker = .done r none := by
  have hwn : Gearhulk.workerStep c s = none := hs .worker
  have hcn : Gearhulk.childStep c p s = none := hs .child
  have hst := hf.stage
  cases hwk : s.worker with
  | write r =>
    cases r with
    | cons b r =>
      by_cases hlt : s.stdin.buf.length < c.stdin
      · rw [workerStep_write hwk, if_pos hlt] at hwn
        cases hwn
      · exact absurd hcn (hwrite b r hwk (by omega))
    | nil => rw [workerStep_persist hwk hf.mode] at hwn; cases hwn
  | readLine k cur acc =>
    simp only [LineStage, hwk] at hst
    obtain ⟨hk, -, hcur, hacc, hread⟩ := hst
    cases k with
    | zero => rw [workerStep_readLine_zero hwk] at hwn; cases hwn
    | succ k =>
      cases hb : s.stdout.buf with
      | cons b bs => rw [workerStep_readLine hwk, hb] at hwn; cases hwn
      | nil =>
        -- the subprocess has answered all of `data`, and the handler wants another line
        exfalso
        have ho : s.child.out = [] := by
          cases ho : s.child.out with
          | nil => rfl
          | cons o os =>
            rw [childStep_out ho, if_pos (by rw [hb]; exact hroom (by simp [ho]) hb)] at hcn
            cases hcn
        have hin : s.stdin.buf = [] := by
          by_contra hne
          exact childStep_ne_none hf.not_exited (by simp [ho]) (by simp [hf.err_nil]) (.inl hne)
            hcn
        have hC : C = data.length := by
          have := hf.stream
          rw [hin, hwk] at this
          have := List.drop_eq_nil_iff.1 this
          have := hf.consumed_le
          omega
        have hrest : out.drop R = [] := by
          rw [← hf.output, hb, ho, hf.line_nil hC, hC, List.drop_length]
          simp [LineCommand.output]
        have hcount : out.count newline = acc.length := by
          rw [← List.take_append_drop R out, hrest, List.append_nil, ← hread,
            List.count_append, count_unlines hacc, List.count_eq_zero_of_not_mem hcur, Nat.add_zero]
        omega
  | readOut _ | readErr _ _ | wait _ _ => simp [LineStage, hwk] at hst
  | done r e =>
    cases e with
    | some e => simp [LineStage, hwk] at hst
    | none => exact ⟨r, rfl⟩

/-- A stuck `Answering` state of a job that fits its pipes is the handler returned: the
subprocess has room for its answers, and when the handler waits on a full standard input, the
subprocess can read it. -/
theorem Answering.done_of_fits (hn : n ≤ out.count newline)
    (hfit : data.length ≤ c.stdin ∧ 0 < c.stdout ∨ 0 < c.stdin ∧ out.length ≤ c.stdout)
    (hf : Answering c p data out n C R s) (hfits : data.length ≤ c.stdin → FitsStdin c s)
    (hs : ∀ a, s.step c p a = none) : ∃ r, s.worker = .done r none := by
  refine hf.done_of_stuck hn ?_ ?_ hs
  · rcases hfit with ⟨-, hout⟩ | ⟨-, hout⟩
    · exact fun _ _ => hout
    · intro ho hb
      have := hf.stdout_room hout ho
      rwa [hb] at this
  · intro b r hwk hge
    rcases hfit with ⟨hd, -⟩ | ⟨hin, hout⟩
    · -- the handler never waits on a full standard input
      have := hfits hd
      unfold FitsStdin at this
      rw [hwk] at this
      simp only [Phase.toWrite, List.length_cons] at this
      omega
    · -- on a full standard input the subprocess reads, its answers having room
      refine childStep_ne_none hf.not_exited (hf.stdout_room hout) (by simp [hf.err_nil]) (.inl ?_)
      intro hb
      rw [hb, List.length_nil] at hge
      omega

end Answering

/-- Every schedule of a job from a state between two jobs is at most as long as a bound fixed by
the bytes the subprocess is to read and what the handler is to find in standard output, and ends
in a state with `Answering`, where what the handler has yet to write still fits standard input
if the job did. -/
theorem nextJob_run {c : Caps} {p : LineCommand} {s : Sys} (hb : Between c s) (skip : Bytes → Bool)
    (d : Bytes) {as : List Party} {t : Sys} (h : Sys.run c p (s.nextJob skip d) as = some t) :
    as.length ≤ 2 * (s.stdin.buf ++ withNewline d).length + c.stdin +
        2 * (s.toCome p (withNewline d)).length + 4 ∧
      ∃ C R, Answering c p (s.stdin.buf ++ withNewline d) (s.toCome p (withNewline d))
          (readCount skip d) C R t ∧
        ((s.stdin.buf ++ withNewline d).length ≤ c.stdin → FitsStdin c t) := by
  obtain ⟨hlen, i, hf, hfit⟩ := run_length_le_of_measure
    (I := fun (i : Nat × Nat) u =>
      Answering c p (s.stdin.buf ++ withNewline d) (s.toCome p (withNewline d)) (readCount skip d)
        i.1 i.2 u ∧ ((s.stdin.buf ++ withNewline d).length ≤ c.stdin → FitsStdin c u))
    (fun i u => Sys.answered u i.1 i.2) _
    (fun hf h => let ⟨C', R', hf', hlt⟩ := hf.1.step (append_withNewline_ends _ d) h
      ⟨(C', R'), ⟨hf', fun hd => (hf.2 hd).step h⟩, hlt⟩)
    (fun hf => hf.1.answered_le) as (i := (0, 0))
    ⟨hb.answering skip d, fun hd => by simpa [FitsStdin, Sys.nextJob, Phase.toWrite] using hd⟩ h
  exact ⟨(Nat.le_add_right _ _).trans hlen, i.1, i.2, hf, hfit⟩

end Gearhulk
